/-! # Lists of outcomes

A list is mapped successfully exactly when each of its members is, whether failures
carry an error or not.
-/

namespace ReversePolish

variable {ε α β : Type} {f : α → Except ε β} {first : α} {rest : List α} {results : List β}

theorem bind_eq_ok_iff {outcome : Except ε α} {next : α → Except ε β} {result : β} :
    (outcome >>= next) = .ok result ↔ ∃ value, outcome = .ok value ∧ next value = .ok result := by
  cases outcome with
  | error error => simp [bind, Except.bind]
  | ok value => simp [bind, Except.bind]

theorem bind_eq_error_iff {outcome : Except ε α} {next : α → Except ε β} {error : ε} :
    (outcome >>= next) = .error error ↔
      outcome = .error error ∨ ∃ value, outcome = .ok value ∧ next value = .error error := by
  cases outcome with
  | error other => simp [bind, Except.bind]
  | ok value => simp [bind, Except.bind]

theorem map_eq_ok_iff {outcome : Except ε α} {g : α → β} {result : β} :
    g <$> outcome = .ok result ↔ ∃ value, outcome = .ok value ∧ g value = result := by
  cases outcome with
  | error error => simp [Functor.map, Except.map]
  | ok value => simp [Functor.map, Except.map]

theorem map_eq_error_iff {outcome : Except ε α} {g : α → β} {error : ε} :
    g <$> outcome = .error error ↔ outcome = .error error := by
  cases outcome with
  | error error => simp [Functor.map, Except.map]
  | ok value => simp [Functor.map, Except.map]

theorem mapM_cons_eq_ok_iff :
    (first :: rest).mapM f = .ok results ↔
      ∃ result others, f first = .ok result ∧ rest.mapM f = .ok others ∧
        results = result :: others := by
  rw [List.mapM_cons]
  simp only [bind_eq_ok_iff, pure, Except.pure, Except.ok.injEq]
  constructor
  · intro mapped
    obtain ⟨result, found, others, rest_found, rfl⟩ := mapped
    exact ⟨result, others, found, rest_found, rfl⟩
  · intro parts
    obtain ⟨result, others, found, rest_found, rfl⟩ := parts
    exact ⟨result, found, others, rest_found, rfl⟩

/-- What fails on a list succeeds on its members before the first that it fails on. -/
theorem exists_first_of_mapM_eq_error {list : List α} {error : ε}
    (failed : list.mapM f = .error error) :
    ∃ earlier member later results, list = earlier ++ member :: later ∧
      earlier.mapM f = .ok results ∧ f member = .error error := by
  induction list with
  | nil => exact absurd failed (by simp [pure, Except.pure])
  | cons first rest ih =>
      rw [List.mapM_cons, bind_eq_error_iff] at failed
      rcases failed with found | ⟨result, succeeded, failed⟩
      · exact ⟨[], first, rest, [], rfl, rfl, found⟩
      · rcases bind_eq_error_iff.mp failed with failed | ⟨others, -, failed⟩
        · obtain ⟨earlier, member, later, results, rfl, succeeded_earlier, found⟩ := ih failed
          exact ⟨first :: earlier, member, later, result :: results, rfl,
            mapM_cons_eq_ok_iff.mpr ⟨_, _, succeeded, succeeded_earlier, rfl⟩, found⟩
        · exact absurd failed (by simp [pure, Except.pure])

/-- What fails on a list fails on one of its members. -/
theorem exists_of_mapM_eq_error {list : List α} {error : ε} (failed : list.mapM f = .error error) :
    ∃ member ∈ list, f member = .error error := by
  obtain ⟨earlier, member, later, -, rfl, -, found⟩ := exists_first_of_mapM_eq_error failed
  exact ⟨member, List.mem_append_right earlier List.mem_cons_self, found⟩

/-- What succeeds on a list succeeds on each of its members. -/
theorem exists_of_mapM_eq_ok {list : List α} (mapped : list.mapM f = .ok results) :
    ∀ member ∈ list, ∃ result, f member = .ok result := by
  induction list generalizing results with
  | nil => simp
  | cons first rest ih =>
      obtain ⟨result, others, found, found_rest, rfl⟩ := mapM_cons_eq_ok_iff.mp mapped
      exact List.forall_mem_cons.mpr ⟨⟨result, found⟩, ih found_rest⟩

/-- What succeeds on each member of a list succeeds on the list. -/
theorem exists_mapM_eq_ok {list : List α}
    (succeed : ∀ member ∈ list, ∃ result, f member = .ok result) :
    ∃ results, list.mapM f = .ok results := by
  induction list with
  | nil => exact ⟨[], rfl⟩
  | cons first rest ih =>
      obtain ⟨⟨result, found⟩, succeed⟩ := List.forall_mem_cons.mp succeed
      obtain ⟨others, found_rest⟩ := ih succeed
      exact ⟨result :: others, mapM_cons_eq_ok_iff.mpr ⟨_, _, found, found_rest, rfl⟩⟩

theorem length_of_mapM_eq_ok {list : List α} (mapped : list.mapM f = .ok results) :
    results.length = list.length := by
  induction list generalizing results with
  | nil =>
      obtain rfl : [] = results := Except.ok.inj mapped
      rfl
  | cons first rest ih =>
      obtain ⟨result, others, -, found_rest, rfl⟩ := mapM_cons_eq_ok_iff.mp mapped
      rw [List.length_cons, List.length_cons, ih found_rest]

/-- What succeeds on each image of a list succeeds on all of them. -/
theorem mapM_map_eq_ok {γ : Type} {list : List γ} {h : γ → α} {g : γ → β}
    (succeed : ∀ member ∈ list, f (h member) = .ok (g member)) :
    (list.map h).mapM f = .ok (list.map g) := by
  induction list with
  | nil => rfl
  | cons first rest ih =>
      obtain ⟨found, found_rest⟩ := List.forall_mem_cons.mp succeed
      exact mapM_cons_eq_ok_iff.mpr ⟨_, _, found, ih found_rest, rfl⟩

/-- What holds of every result for a member holds of the results for a list. -/
theorem forall_of_mapM_eq_ok {list : List α} {p : β → Prop} (mapped : list.mapM f = .ok results)
    (holds : ∀ member result, f member = .ok result → p result) : ∀ result ∈ results, p result := by
  induction list generalizing results with
  | nil =>
      obtain rfl : [] = results := Except.ok.inj mapped
      simp
  | cons first rest ih =>
      obtain ⟨result, others, found, found_rest, rfl⟩ := mapM_cons_eq_ok_iff.mp mapped
      exact List.forall_mem_cons.mpr ⟨holds first result found, ih found_rest⟩

/-- A list is mapped in two goes as in one, if the first of them succeeds. -/
theorem mapM_bind_of_mapM_eq_ok {γ : Type} {list : List α} (mapped : list.mapM f = .ok results)
    (g : β → Except ε γ) : (list.mapM fun member => f member >>= g) = results.mapM g := by
  induction list generalizing results with
  | nil =>
      obtain rfl : [] = results := Except.ok.inj mapped
      rfl
  | cons first rest ih =>
      obtain ⟨result, others, found, found_rest, rfl⟩ := mapM_cons_eq_ok_iff.mp mapped
      rw [List.mapM_cons, List.mapM_cons, found, ih found_rest]
      rfl

/-- The first member that fails is the one that a list fails at. -/
theorem mapM_append_cons_eq_error {earlier : List α} {error : ε}
    (succeeded : earlier.mapM f = .ok results) (failed : f first = .error error) :
    (earlier ++ first :: rest).mapM f = .error error := by
  rw [List.mapM_append, succeeded, List.mapM_cons, failed]
  rfl

theorem mapM_cons_eq_some_iff {g : α → Option β} :
    (first :: rest).mapM g = some results ↔
      ∃ result others, g first = some result ∧ rest.mapM g = some others ∧
        results = result :: others := by
  rw [List.mapM_cons]
  simp only [Option.bind_eq_bind, Option.bind_eq_some_iff, Option.pure_def, Option.some.injEq]
  constructor
  · intro mapped
    obtain ⟨result, found, others, rest_found, rfl⟩ := mapped
    exact ⟨result, others, found, rest_found, rfl⟩
  · intro parts
    obtain ⟨result, others, found, rest_found, rfl⟩ := parts
    exact ⟨result, found, others, rest_found, rfl⟩

end ReversePolish
