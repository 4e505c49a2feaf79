import ReversePolish.Disk.Output
import ReversePolish.Proofs.Action
import ReversePolish.Proofs.Disk.Files

/-! # Replacing a file, whole or not at all

Following names makes directories and touches no file (`Disk.enter_cases`). A file is
replaced exactly when its path is free and fits, and then nothing else on the disk has other
content; otherwise every file is what it was (`Disk.replaceFile_cases`).
-/

namespace ReversePolish

open Location

variable {disk made after : Disk} {here location directory target : Location} {names : List String}
  {path : Path} {start : PathStart} {name : String} {content : Bytes}

namespace Location

/-- Where names lead is among what holds of all locations on the way and is passed on to
those above. -/
theorem of_follow {property : Location → Prop}
    (above : ∀ location, location <+: here → property location)
    (down : ∀ location ∈ entered here names, property location) :
    property (follow here names) := by
  induction names generalizing here with
  | nil => exact above _ (List.prefix_refl _)
  | cons name rest ih =>
      rw [follow]
      rw [entered] at down
      by_cases up : name = ".."
      · rw [if_pos up] at down ⊢
        refine ih (fun location le => above location ?_) down
        exact le.trans (List.dropLast_prefix here)
      · rw [if_neg up] at down ⊢
        obtain ⟨next, later⟩ := List.forall_mem_cons.mp down
        refine ih (fun location le => ?_) later
        rcases List.prefix_concat_iff.mp le with rfl | le
        · exact next
        · exact above location le

theorem follow_append_singleton (down : name ≠ "..") :
    follow here (names ++ [name]) = follow here names ++ [name] := by
  induction names generalizing here with
  | nil => simp [follow, down]
  | cons first rest ih =>
      rw [List.cons_append, follow, follow]
      split
      · exact ih
      · exact ih

end Location

theorem slashComponents_of_not_mem {text : List Char} (plain : '/' ∉ text) :
    slashComponents text = [text] := by
  induction text with
  | nil => rfl
  | cons char rest ih =>
      obtain ⟨first, later⟩ := not_or.mp (mt List.mem_cons.mpr plain)
      rw [slashComponents, if_neg (Ne.symm first), ih later]

theorem PathStart.ofText_of_not_mem {text : List Char} (plain : '/' ∉ text) :
    PathStart.ofText text = .workingDirectory := by
  cases text with
  | nil => rfl
  | cons char rest =>
      have first : char ≠ '/' := fun same => plain (same ▸ List.mem_cons_self ..)
      rw [PathStart.ofText, List.takeWhile_cons_of_neg (by simpa using first)]
      rfl

namespace Path

/-- A name without a slash is a path of its own. -/
theorem ofString_name (plain : '/' ∉ name.toList) (named : name ≠ "") (other : name ≠ ".") :
    Path.ofString name = ⟨.workingDirectory, [name]⟩ := by
  rw [ofString, PathStart.ofText_of_not_mem plain, slashComponents_of_not_mem plain]
  simp [named, other]

theorem fileName?_name (down : name ≠ "..") (start : PathStart) :
    fileName? ⟨start, [name]⟩ = some name := by
  rw [fileName?, List.getLast?_singleton]
  exact if_neg down

/-- A path that names a file is the path of its directory and that name. -/
theorem parts_of_fileName? (named : path.fileName? = some name) :
    path.parts = path.parent.parts ++ [name] ∧ name ≠ ".." := by
  rw [fileName?] at named
  cases last : path.parts.getLast? with
  | none =>
      rw [last] at named
      exact absurd named (by simp)
  | some found =>
      rw [last] at named
      by_cases up : found = ".."
      · simp only [if_pos up] at named
        exact absurd named (by simp)
      · simp only [if_neg up, Option.some.injEq] at named
        subst named
        obtain ⟨parts, split⟩ := List.getLast?_eq_some_iff.mp last
        exact ⟨by rw [parent, split, List.dropLast_concat], up⟩

end Path

namespace Disk

/-- The directory that a path starts in stands, and so do those above it. -/
theorem isDir_of_prefix_startOf (above : location <+: disk.startOf start) :
    disk.isDir location := by
  have inWorking : location <+: disk.working := by
    cases start with
    | workingDirectory => exact above
    | root | doubleRoot =>
        rw [List.prefix_nil.mp above]
        exact List.nil_prefix
  rw [isDir, List.isPrefixOf_iff_prefix.mpr inWorking, Bool.true_or]

/-- Names that can be followed: each is short enough for a directory, and no file bars the
way. -/
structure Enterable (disk : Disk) (here : Location) (names : List String) : Prop where
  short : ∀ name ∈ names, name ≠ ".." → name.utf8ByteSize ≤ nameLimit
  passable : ∀ location ∈ entered here names, disk.Passable location

/-- What following names leaves of a disk: its files, and the directories on the way. -/
structure Entered (disk after : Disk) (here : Location) (names : List String)
    (directory : Location) : Prop where
  leadsTo : follow here names = directory
  files : after.files = disk.files
  isDir_iff : ∀ location,
    after.isDir location ↔ disk.isDir location ∨ location ∈ entered here names

theorem enterable_up :
    disk.Enterable here (".." :: names) ↔ disk.Enterable here.dropLast names := by
  have locations : entered here (".." :: names) = entered here.dropLast names := by
    rw [entered, if_pos rfl]
  constructor
  · intro way
    exact ⟨fun name member => way.short name (List.mem_cons_of_mem _ member),
      locations ▸ way.passable⟩
  · intro way
    refine ⟨fun name member => ?_, locations ▸ way.passable⟩
    rcases List.mem_cons.mp member with rfl | later
    · exact fun down => absurd rfl down
    · exact way.short name later

theorem enterable_down (down : name ≠ "..") :
    disk.Enterable here (name :: names) ↔ name.utf8ByteSize ≤ nameLimit ∧
      disk.Passable (here ++ [name]) ∧ disk.Enterable (here ++ [name]) names := by
  have locations : entered here (name :: names) =
      (here ++ [name]) :: entered (here ++ [name]) names := by
    rw [entered, if_neg down]
  constructor
  · intro way
    obtain ⟨short, shorter⟩ := List.forall_mem_cons.mp way.short
    obtain ⟨next, later⟩ := List.forall_mem_cons.mp (locations ▸ way.passable)
    exact ⟨short down, next, shorter, later⟩
  · rintro ⟨short, next, way⟩
    refine ⟨List.forall_mem_cons.mpr ⟨fun _ => short, way.short⟩, ?_⟩
    rw [locations]
    exact List.forall_mem_cons.mpr ⟨next, way.passable⟩

theorem passable_congr (files : after.files = disk.files)
    (dirs : ∀ location, after.isDir location ↔ disk.isDir location ∨ location = target)
    (passable : disk.Passable target) (location : Location) :
    after.Passable location ↔ disk.Passable location := by
  rw [Passable, Passable, content?_congr files, dirs]
  constructor
  · rintro ((dir | rfl) | absent)
    · exact .inl dir
    · exact passable
    · exact .inr absent
  · rintro (dir | absent)
    · exact .inl (.inl dir)
    · exact .inr absent

theorem enterable_congr (same : ∀ location, after.Passable location ↔ disk.Passable location) :
    after.Enterable here names ↔ disk.Enterable here names :=
  ⟨fun way => ⟨way.short, fun place on => (same place).mp (way.passable place on)⟩,
    fun way => ⟨way.short, fun place on => (same place).mpr (way.passable place on)⟩⟩

/-- What following names comes to: it leads through directories, which are made where they
are missing, or it fails; no file is touched in either case. -/
inductive Entering (disk : Disk) (here : Location) (names : List String) :
    EStateM.Result DiskError Disk Location → Prop where
  | reached (directory : Location) (after : Disk) :
      disk.Enterable here names → Entered disk after here names directory →
      Entering disk here names (.ok directory after)
  | barred (error : DiskError) (after : Disk) :
      after.files = disk.files → ¬ disk.Enterable here names →
      Entering disk here names (.error error after)

variable {result : EStateM.Result DiskError Disk Location}

theorem Entering.up (rest : Entering disk here.dropLast names result) :
    Entering disk here (".." :: names) result := by
  cases rest with
  | reached directory after way entered =>
      refine .reached directory after (enterable_up.mpr way) ?_
      obtain ⟨leads, files, dirs⟩ := entered
      refine ⟨?_, files, ?_⟩
      · rwa [follow, if_pos rfl]
      · rwa [Location.entered, if_pos rfl]
  | barred error after files blocked =>
      exact .barred error after files fun way => blocked (enterable_up.mp way)

theorem Entering.down (down : name ≠ "..") (short : name.utf8ByteSize ≤ nameLimit)
    (passable : disk.Passable (here ++ [name])) (kept : made.files = disk.files)
    (makes : ∀ location, made.isDir location ↔ disk.isDir location ∨ location = here ++ [name])
    (rest : Entering made (here ++ [name]) names result) :
    Entering disk here (name :: names) result := by
  have same : made.Enterable (here ++ [name]) names ↔ disk.Enterable (here ++ [name]) names :=
    enterable_congr (passable_congr kept makes passable)
  cases rest with
  | reached directory after way entered =>
      refine .reached directory after
        ((enterable_down down).mpr ⟨short, passable, same.mp way⟩) ?_
      obtain ⟨leads, files, dirs⟩ := entered
      refine ⟨?_, files.trans kept, fun location => ?_⟩
      · rwa [follow, if_neg down]
      · rw [Location.entered, if_neg down, dirs, makes, List.mem_cons, or_assoc]
  | barred error after files blocked =>
      refine .barred error after (files.trans kept) fun way => blocked ?_
      exact same.mpr ((enterable_down down).mp way).2.2

/-- **Following names** leads through directories or fails, and touches no file. -/
theorem enter_cases (disk : Disk) (here : Location) (names : List String) :
    Entering disk here names (enter here names disk) := by
  induction names generalizing disk here with
  | nil =>
      refine .reached here disk ⟨by simp, by simp [entered]⟩ ⟨rfl, rfl, ?_⟩
      simp [entered]
  | cons name rest ih =>
      rw [enter]
      by_cases up : name = ".."
      · subst up
        rw [if_pos rfl]
        exact (ih disk here.dropLast).up
      · rw [if_neg up]
        by_cases long : name.utf8ByteSize > nameLimit
        · rw [if_pos long]
          refine .barred (.nameTooLong name) disk rfl fun way => ?_
          exact absurd ((enterable_down up).mp way).1 (Nat.not_le.mpr long)
        · rw [if_neg long, bind_of_ok (get_apply disk)]
          have short := Nat.not_lt.mp long
          by_cases dir : disk.isDir (here ++ [name])
          · rw [if_pos dir]
            refine (ih disk (here ++ [name])).down up short (.inl dir) rfl fun location => ?_
            exact ⟨.inl, fun cases => cases.elim id fun same => same ▸ dir⟩
          · rw [if_neg dir]
            cases content : disk.content? (here ++ [name]) with
            | some bytes =>
                refine .barred (.notADirectory (here ++ [name])) disk rfl fun way => ?_
                have passable := ((enterable_down up).mp way).2.1
                rw [Passable, content] at passable
                exact passable.elim dir (by simp)
            | none =>
                rw [if_neg (by simp), bind_of_ok (set_apply disk _)]
                have later :=
                  ih { disk with dirs := (here ++ [name]) :: disk.dirs } (here ++ [name])
                refine later.down up short (.inr content) ?kept fun location => ?makes
                · rfl
                · simp only [isDir, List.mem_cons, Bool.or_eq_true, decide_eq_true_eq]
                  rw [or_comm (a := location = here ++ [name]), or_assoc]

/-- A path that leads down into nothing before its last name is free if no directory stands at
its end. -/
theorem free_of_wayTo_eq_nil (way : disk.wayTo path = [])
    (leads : follow (disk.startOf path.start) path.parts = target)
    (named : path.fileName?.isSome) (notDir : ¬ disk.isDir target) : disk.Free path target where
  leads := leads
  named := named
  passable := by simp [way]
  notDir := notDir
  notMade := by simp [way]

/-- A single name is free in the working directory if no directory has it. -/
theorem free_name (down : name ≠ "..") (notDir : ¬ disk.isDir (disk.working ++ [name])) :
    disk.Free ⟨.workingDirectory, [name]⟩ (disk.working ++ [name]) := by
  refine free_of_wayTo_eq_nil rfl ?_ ?_ notDir
  · rw [follow, if_neg down]
    rfl
  · rw [Path.fileName?_name down]
    rfl

/-- A path leads to one location. -/
theorem Free.target_unique (free : disk.Free path target) (other : disk.Free path location) :
    target = location :=
  free.leads.symm.trans other.leads

/-- An output goes to the last name of its path, in the directory that the others lead to. -/
theorem Free.exists_name (free : disk.Free path target) :
    ∃ name, path.fileName? = some name ∧
      target = follow (disk.startOf path.start) path.parent.parts ++ [name] := by
  obtain ⟨name, named⟩ := Option.isSome_iff_exists.mp free.named
  obtain ⟨parts, down⟩ := Path.parts_of_fileName? named
  have leads := free.leads
  rw [parts, follow_append_singleton down] at leads
  exact ⟨name, named, leads.symm⟩

theorem Free.enterable (free : disk.Free path target) (fits : path.Fits target) :
    disk.Enterable (disk.startOf path.start) path.parent.parts :=
  ⟨fits.names, free.passable⟩

/-- The way to a path's directory is open. -/
structure Opened (disk after : Disk) (path : Path) (directory : Location) : Prop extends
    Enterable disk (disk.startOf path.start) path.parent.parts,
    Entered disk after (disk.startOf path.start) path.parent.parts directory where
  written : path.parent.render.utf8ByteSize ≤ pathLimit

theorem enterParent_cases (disk : Disk) (path : Path) :
    (∃ directory after, enterParent path disk = .ok directory after ∧
      disk.Opened after path directory) ∨
    ∃ error after, enterParent path disk = .error error after ∧ after.files = disk.files ∧
      ∀ target, disk.Free path target → ¬ path.Fits target := by
  rw [enterParent]
  by_cases long : path.parent.render.utf8ByteSize > pathLimit
  · simp only [if_pos long]
    refine .inr ⟨_, disk, rfl, rfl, fun target _ fits => ?_⟩
    exact absurd fits.parent (Nat.not_le.mpr long)
  · simp only [if_neg long]
    rw [bind_of_ok (get_apply disk)]
    generalize ends : enter (disk.startOf path.start) path.parent.parts disk = result
    cases ends ▸ enter_cases disk (disk.startOf path.start) path.parent.parts with
    | reached directory after way entered =>
        exact .inl ⟨directory, after, rfl, ⟨way, entered, Nat.not_lt.mp long⟩⟩
    | barred error after files blocked =>
        refine .inr ⟨error, after, rfl, files, fun target free fits => ?_⟩
        exact blocked (free.enterable fits)

/-- There is room for a temporary file beside a file of a directory. -/
structure HasRoom (start : PathStart) (directory : Location) (name : String) : Prop where
  short : name.utf8ByteSize + temporaryRoom ≤ nameLimit
  written :
    (Path.render ⟨start.absolute, directory ++ [name]⟩).utf8ByteSize + temporaryRoom ≤ pathLimit

theorem writeTemporary_of_hasRoom (room : HasRoom start directory name) (content : Bytes)
    (disk : Disk) :
    writeTemporary start directory name content disk =
      .ok (directory ++ [disk.freshName name])
        (disk.write (directory ++ [disk.freshName name]) content) := by
  rw [writeTemporary, if_neg (Nat.not_lt.mpr room.short)]
  simp only [if_neg (Nat.not_lt.mpr room.written)]
  rfl

theorem writeTemporary_of_not_hasRoom (full : ¬ HasRoom start directory name) (content : Bytes)
    (disk : Disk) :
    ∃ error, writeTemporary start directory name content disk = .error error disk := by
  rw [writeTemporary]
  by_cases long : name.utf8ByteSize + temporaryRoom > nameLimit
  · exact ⟨_, by rw [if_pos long]; rfl⟩
  · rw [if_neg long]
    by_cases deep : (Path.render ⟨start.absolute, directory ++ [name]⟩).utf8ByteSize +
        temporaryRoom > pathLimit
    · exact ⟨_, by simp only [if_pos deep]; rfl⟩
    · exact absurd ⟨Nat.not_lt.mp long, Nat.not_lt.mp deep⟩ full

theorem refusal?_eq_none_iff : disk.refusal? path target = none ↔
    path.render.utf8ByteSize ≤ pathLimit ∧ ¬ disk.isDir target := by
  rw [refusal?]
  by_cases long : path.render.utf8ByteSize > pathLimit
  · rw [if_pos long]
    simp [Nat.not_le.mpr long]
  · rw [if_neg long]
    simp [Nat.not_lt.mp long]

/-- Files play no part in a refusal. -/
theorem refusal?_write : (disk.write location content).refusal? path target =
    disk.refusal? path target := rfl

/-- What replacing a file comes to: the file has its new content and all others what they
had, or every file is what it was. -/
inductive Replacing (disk : Disk) (path : Path) (content : Bytes) :
    EStateM.Result DiskError Disk Unit → Prop where
  | replaced (target : Location) (after : Disk) :
      disk.Free path target → path.Fits target →
      after.content? = Function.update disk.content? target (some content) →
      Replacing disk path content (.ok () after)
  | kept (error : DiskError) (after : Disk) :
      after.files = disk.files → (∀ target, disk.Free path target → ¬ path.Fits target) →
      Replacing disk path content (.error error after)

namespace Opened

variable (opened : disk.Opened after path directory)
include opened

theorem exists_name (free : disk.Free path target) :
    ∃ name, path.fileName? = some name ∧ target = directory ++ [name] := by
  obtain ⟨name, named, same⟩ := free.exists_name
  exact ⟨name, named, opened.leadsTo ▸ same⟩

theorem isDir_directory : after.isDir directory := by
  rw [← opened.leadsTo]
  refine of_follow (fun location above => (opened.isDir_iff location).mpr (.inl ?_))
    fun location member => (opened.isDir_iff location).mpr (.inr member)
  exact isDir_of_prefix_startOf above

theorem hasRoom (free : disk.Free path target) (fits : path.Fits target) :
    HasRoom path.start directory (path.fileName?.getD "") := by
  obtain ⟨name, named, same⟩ := opened.exists_name free
  rw [named, Option.getD_some]
  exact ⟨fits.fileName name named, same ▸ fits.temporary⟩

theorem refusal?_eq_none (free : disk.Free path target) (fits : path.Fits target) :
    after.refusal? path (directory ++ path.fileName?.toList) = none := by
  obtain ⟨name, named, same⟩ := opened.exists_name free
  rw [named, Option.toList_some, ← same]
  refine refusal?_eq_none_iff.mpr ⟨fits.written, fun dir => ?_⟩
  exact ((opened.isDir_iff target).mp dir).elim free.notDir free.notMade

/-- Where nothing is refused, the path is free and fits. -/
theorem free_of_refusal?_eq_none (room : HasRoom path.start directory (path.fileName?.getD ""))
    (accepted : after.refusal? path (directory ++ path.fileName?.toList) = none) :
    disk.Free path (directory ++ path.fileName?.toList) ∧
      path.Fits (directory ++ path.fileName?.toList) := by
  obtain ⟨written, notDir⟩ := refusal?_eq_none_iff.mp accepted
  cases named : path.fileName? with
  | none =>
      rw [named, Option.toList_none, List.append_nil] at notDir
      exact absurd opened.isDir_directory notDir
  | some name =>
      obtain ⟨parts, down⟩ := Path.parts_of_fileName? named
      rw [named] at room notDir
      have places := not_or.mp (mt (opened.isDir_iff _).mpr notDir)
      refine ⟨⟨?_, by rw [named]; rfl, opened.passable, places.1, places.2⟩,
        opened.short, fun other same => ?_, opened.written, room.written, written⟩
      · rw [parts, follow_append_singleton down, opened.leadsTo]
        rfl
      · obtain rfl := Option.some.inj (named.symm.trans same)
        exact room.short

end Opened

/-- **A file is replaced whole or not at all**, and it is replaced exactly when its path is
free and fits. -/
theorem replaceFile_cases (disk : Disk) (path : Path) (content : Bytes) :
    Replacing disk path content (replaceFile path content disk) := by
  rw [replaceFile]
  rcases enterParent_cases disk path with ⟨directory, after, entering, opened⟩ |
    ⟨error, after, failed, files, blocked⟩
  · rw [bind_of_ok entering]
    by_cases room : HasRoom path.start directory (path.fileName?.getD "")
    · rw [bind_of_ok (writeTemporary_of_hasRoom room content after)]
      have absent := absent_freshName after directory (path.fileName?.getD "")
      -- All that counts of the temporary file is that no file stood where it is written.
      generalize directory ++ [after.freshName (path.fileName?.getD "")] = temporary at absent
      rw [bind_of_ok (get_apply _)]
      simp only [refusal?_write]
      cases refused : after.refusal? path (directory ++ path.fileName?.toList) with
      | some error =>
          refine .kept error ((after.write temporary content).remove temporary) ?_
            fun target free fits => ?_
          · rw [remove_write_of_absent absent]
            exact opened.files
          · exact absurd (refused.symm.trans (opened.refusal?_eq_none free fits)) (by simp)
      | none =>
          obtain ⟨free, fits⟩ := opened.free_of_refusal?_eq_none room refused
          refine .replaced _
            ((after.write temporary content).rename temporary (directory ++ path.fileName?.toList))
            free fits ?_
          rw [rename_write_of_absent absent, content?_write, content?_congr opened.files]
    · obtain ⟨error, failed⟩ := writeTemporary_of_not_hasRoom room content after
      rw [bind_of_error failed]
      exact .kept error after opened.files fun target free fits => room (opened.hasRoom free fits)
  · rw [bind_of_error failed]
    exact .kept error after files blocked

end Disk

end ReversePolish
