import Mathlib.Logic.Function.Basic
import ReversePolish.Disk.Basic

/-! # Files by their locations

A disk is seen as the content at each location. Writing a file changes the content at its
location and nowhere else (`Disk.content?_write`). A temporary file has a name that no file
has, so that a disk is what it was when the file is removed again
(`Disk.remove_write_of_absent`), and moving it is writing its content to the other location
(`Disk.rename_write_of_absent`).
-/

namespace ReversePolish

namespace Disk

variable {disk other : Disk} {location target : Location}

/-- No file stands at a location. -/
def Absent (disk : Disk) (location : Location) : Prop :=
  ∀ entry ∈ disk.files, entry.1 ≠ location

theorem content?_congr (same : other.files = disk.files) : other.content? = disk.content? := by
  funext location
  rw [content?, content?, same]

theorem lookup_filter_of_ne {files : List (Location × Bytes)} (different : location ≠ target) :
    (files.filter (·.1 ≠ target)).lookup location = files.lookup location := by
  induction files with
  | nil => rfl
  | cons entry rest ih =>
      obtain ⟨place, content⟩ := entry
      by_cases removed : place = target
      · subst removed
        have other : (location == place) = false := by simpa using different
        rw [List.filter_cons_of_neg (by simp), ih, List.lookup_cons, other]
      · rw [List.filter_cons_of_pos (by simpa using removed), List.lookup_cons, List.lookup_cons,
          ih]

theorem content?_write (disk : Disk) (target : Location) (content : Bytes) :
    (disk.write target content).content? = Function.update disk.content? target (some content) := by
  funext location
  by_cases here : location = target
  · subst here
    rw [Function.update_self, content?, write, List.lookup_cons_self]
  · have other : (location == target) = false := by simpa using here
    rw [Function.update_of_ne here, content?, write, List.lookup_cons, other]
    exact lookup_filter_of_ne here

theorem remove_of_absent (absent : disk.Absent location) : disk.remove location = disk := by
  have kept : disk.files.filter (·.1 ≠ location) = disk.files :=
    List.filter_eq_self.mpr fun entry member => by simpa using absent entry member
  rw [remove, kept]

theorem remove_write_of_absent (absent : disk.Absent location) (content : Bytes) :
    (disk.write location content).remove location = disk := by
  have rest := remove_of_absent absent
  rw [write, rest, remove, List.filter_cons_of_neg (by simp)]
  exact rest

theorem rename_write_of_absent (absent : disk.Absent location) (content : Bytes)
    (target : Location) :
    (disk.write location content).rename location target = disk.write target content := by
  have found : (disk.write location content).content? location = some content := by
    rw [content?_write, Function.update_self]
  rw [rename, found]
  simp only [remove_write_of_absent absent]

theorem length_le_foldr_max {names : List String} {name : String} (member : name ∈ names) :
    name.length ≤ names.foldr (fun other most => max other.length most) 0 := by
  induction names with
  | nil => exact absurd member (by simp)
  | cons first rest ih =>
      rw [List.foldr_cons]
      rcases List.mem_cons.mp member with rfl | later
      · exact Nat.le_max_left ..
      · exact Nat.le_trans (ih later) (Nat.le_max_right ..)

/-- The name of a temporary file is longer than all others. -/
theorem length_lt_freshName {entry : Location × Bytes} (member : entry ∈ disk.files)
    {part : String} (inEntry : part ∈ entry.1) (name : String) :
    part.length < (disk.freshName name).length := by
  have inFiles : part ∈ disk.files.flatMap (·.1) := List.mem_flatMap.mpr ⟨entry, member, inEntry⟩
  have le := length_le_foldr_max inFiles
  simp only [freshName, String.length_append, String.length_ofList, List.length_replicate]
  omega

theorem absent_freshName (disk : Disk) (directory : Location) (name : String) :
    disk.Absent (directory ++ [disk.freshName name]) := by
  intro entry member same
  have inEntry : disk.freshName name ∈ entry.1 := by
    rw [same]
    exact List.mem_append_right _ (List.mem_singleton_self _)
  exact Nat.lt_irrefl _ (length_lt_freshName member inEntry name)

end Disk

end ReversePolish
