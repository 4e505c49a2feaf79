import ReversePolish.Proofs.Source.Places

/-! # The turns of the lexer

A text is read by turns until one finds the end or fails. `Lexer.Loop` says what such a loop
comes to, without any limit on its turns. Not every turn consumes a character, but one that
consumes none leads back to the start, where the next one does, ends or fails; that is what
`Lexer.turnsLeft` counts, so that the loop ends (`Lexer.exists_loop`, `Lexer.Loop.ends`).

Before each turn the lexer stands in the text as its state says (`Lexer.Stands`): what it has
consumed of a token is there behind it, from the place on that it marked. So whatever comes
next, the table has an entry for it, and a token has the place of its first character
(`tokenize_turns`).
-/

namespace ReversePolish

namespace Lexer

/-- What a loop of turns comes to: the automaton before each of them, and what it yields. -/
inductive Loop : Lexer → List Lexer → TokenStream → Prop where
  | finishes {lexer : Lexer} (finished : lexer.turn = .finished) : Loop lexer [lexer] ⟨[], none⟩
  | fails {lexer : Lexer} {diagnostic : Diagnostic} (failed : lexer.turn = .failed diagnostic) :
      Loop lexer [lexer] ⟨[], some diagnostic⟩
  | moves {lexer after : Lexer} {turns : List Lexer} {stream : TokenStream}
      (moved : lexer.turn = .went none after) (rest : Loop after turns stream) :
      Loop lexer (lexer :: turns) stream
  | yields {lexer after : Lexer} {token : Token} {turns : List Lexer} {stream : TokenStream}
      (yielded : lexer.turn = .went (some token) after) (rest : Loop after turns stream) :
      Loop lexer (lexer :: turns) (stream.cons token)

variable {lexer after : Lexer} {turns earlier : List Lexer} {stream : TokenStream}
  {text before rest : List Char} {char : Char} {mark : Option Position} {token : Option Token}

/-- **The loop ends**, wherever it goes on from. -/
theorem exists_loop (ready : lexer.Ready) : ∃ turns stream, Loop lexer turns stream := by
  induction left : lexer.turnsLeft using Nat.strong_induction_on generalizing lexer with
  | _ left ih =>
      have progress := progress_turn ready
      cases turned : lexer.turn with
      | finished => exact ⟨_, _, .finishes turned⟩
      | failed diagnostic => exact ⟨_, _, .fails turned⟩
      | went token after =>
          rw [turned] at progress
          cases progress with
          | moved _ afterReady fewer =>
              obtain ⟨turns, stream, loop⟩ := ih _ (left ▸ fewer) afterReady rfl
              exact ⟨_, _, .moves turned loop⟩
          | yielded _ afterReady fewer =>
              obtain ⟨turns, stream, loop⟩ := ih _ (left ▸ fewer) afterReady rfl
              exact ⟨_, _, .yields turned loop⟩

/-- The loop yields what is expected, in no more turns than there are left. -/
theorem Loop.ends (loop : Loop lexer turns stream) (ready : lexer.Ready) :
    stream = lexer.expected ∧ turns.length ≤ lexer.turnsLeft := by
  induction loop with
  | finishes turned | fails turned =>
      have progress := progress_turn ready
      rw [turned] at progress
      cases progress
      next expected => exact ⟨expected.symm, turnsLeft_pos _⟩
  | moves moved rest ih =>
      have progress := progress_turn ready
      rw [moved] at progress
      cases progress with
      | moved expected afterReady fewer =>
          obtain ⟨same, few⟩ := ih afterReady
          exact ⟨same.trans expected.symm, Nat.lt_of_le_of_lt few fewer⟩
  | yields yielded rest ih =>
      have progress := progress_turn ready
      rw [yielded] at progress
      cases progress with
      | yielded expected afterReady fewer =>
          obtain ⟨same, few⟩ := ih afterReady
          exact ⟨same ▸ expected.symm, Nat.lt_of_le_of_lt few fewer⟩

/-! ## What a turn looks up -/

/-- The table lacks an entry only for the end of the text at the start and for the failure
that has been told. One that consumes is for a character, and one that takes in a digit for a
digit. -/
theorem exists_transition {state : State} {charClass : CharClass} (alive : state ≠ .error)
    (unfinished : ¬ (state = .start ∧ charClass = .endOfText)) :
    ∃ entry, transition state charClass = some entry ∧
      (entry.consumes → charClass ≠ .endOfText) ∧
      (entry.effect = .accumulate → charClass = .digit) := by
  cases state <;> cases charClass <;> simp_all [transition]

theorem turn_eq_finished_iff (ready : lexer.Ready) :
    lexer.turn = .finished ↔ lexer.state = .start ∧ lexer.rest = [] := by
  constructor
  · intro finished
    have takes := takes_turn ready
    rw [finished] at takes
    cases takes
    exact ⟨rfl, rfl⟩
  · rintro ⟨start, ended⟩
    rw [turn, start, ended]
    rfl

/-- The only failure is a character that starts nothing. -/
theorem exists_of_turn_eq_failed {diagnostic : Diagnostic} (ready : lexer.Ready)
    (failed : lexer.turn = .failed diagnostic) :
    ∃ char ∈ lexer.rest.head?, diagnostic = .unexpectedCharacter lexer.position char := by
  have takes := takes_turn ready
  rw [failed] at takes
  cases takes
  exact ⟨_, rfl, rfl⟩

/-! ## Where the lexer stands -/

/-- A turn that marks its place as the start of a token. -/
def Marks (lexer : Lexer) : Prop :=
  ∃ entry, transition lexer.state (CharClass.of lexer.rest.head?) = some entry ∧ entry.marks

/-- A place that was marked when the lexer stood there. -/
def MarkedAt (turns : List Lexer) (position : Position) : Prop :=
  ∃ marking ∈ turns, marking.Marks ∧ marking.position = position

/-- How the lexer stands in a text before a turn. Behind it are the digits of the number that it
is in, or the slash that may start a comment, from a place on that an earlier turn has marked. -/
inductive Stands (text : List Char) (earlier : List Lexer) : Lexer → Prop where
  | start {before rest : List Char} {mark : Option Position} (text_eq : before ++ rest = text)
      (seam : Seam before rest) : Stands text earlier ⟨.start, rest, .after before, 0, mark⟩
  | inNumber {before digits rest : List Char} (text_eq : before ++ (digits ++ rest) = text)
      (nonempty : digits ≠ []) (inside : ∀ digit ∈ digits, digit.isDigit)
      (seam : Seam before (digits ++ rest)) (marked : MarkedAt earlier (.after before)) :
      Stands text earlier
        ⟨.inNumber, rest, .after (before ++ digits), literalValue digits, some (.after before)⟩
  | maybeComment {before rest : List Char} (text_eq : before ++ ('/' :: rest) = text)
      (marked : MarkedAt earlier (.after before)) :
      Stands text earlier
        ⟨.maybeComment, rest, .after (before ++ ['/']), 0, some (.after before)⟩
  | inComment {before rest : List Char} {mark : Option Position}
      (text_eq : before ++ rest = text) :
      Stands text earlier ⟨.inComment, rest, .after before, 0, mark⟩

/-- A token that is yielded, and where it stands in the text: up to the place that the lexer has
reached, from one on that was marked when the lexer stood there. -/
structure YieldedAt (text : List Char) (turns : List Lexer) (after : Lexer) (token : Token)
    (occurrence : Occurrence) : Prop where
  standsFor : occurrence.StandsFor text token
  finish : after.position.offset = occurrence.finish
  marked : MarkedAt turns occurrence.position

/-- A digit or an operator symbol at the start is marked. -/
theorem markedAt_start (earlier : List Lexer) (rest : List Char) (position : Position)
    (mark : Option Position) (first : char.isDigit ∨ isOperatorSymbol char) :
    MarkedAt (earlier ++ [⟨.start, char :: rest, position, 0, mark⟩]) position := by
  refine ⟨_, List.mem_append_right _ (List.mem_singleton_self _), ?_, rfl⟩
  rw [← CharClass.of_eq_digit_iff, isOperatorSymbol_iff] at first
  rcases first with cls | cls | cls <;> simp [Marks, cls, transition]

theorem MarkedAt.append {position : Position} (marked : MarkedAt earlier position)
    (more : List Lexer) : MarkedAt (earlier ++ more) position := by
  obtain ⟨marking, member, marks, place⟩ := marked
  exact ⟨marking, List.mem_append_left more member, marks, place⟩

theorem yieldedAt_of_spells {piece : List Char} {found : Token}
    (text_eq : before ++ (piece ++ rest) = text) (nonempty : piece ≠ [])
    (spells : Occurrence.Spells (before ++ (piece ++ rest)) ⟨.after before, piece⟩ found)
    (stands : after.position = .after (before ++ piece)) (marked : MarkedAt turns (.after before)) :
    YieldedAt text turns after found ⟨.after before, piece⟩ where
  standsFor := text_eq ▸ Occurrence.standsFor_of_spells nonempty spells
  finish := by
    rw [stands, Occurrence.finish, Position.after_offset, Position.after_offset, List.length_append]
  marked := marked

namespace Stands

/-- Behind a character that is no digit, the lexer stands at its start. -/
theorem start_of_passed (text_eq : before ++ (char :: rest) = text) (notDigit : ¬ char.isDigit) :
    Stands text earlier ⟨.start, rest, (Position.after before).advance char, 0, mark⟩ := by
  rw [← Position.after_append_singleton]
  refine .start ?_ (seam_append_singleton before rest notDigit)
  rw [List.append_assoc, List.singleton_append, text_eq]

theorem inComment_of_passed (text_eq : before ++ (char :: rest) = text) :
    Stands text earlier ⟨.inComment, rest, (Position.after before).advance char, 0, mark⟩ := by
  rw [← Position.after_append_singleton]
  refine .inComment ?_
  rw [List.append_assoc, List.singleton_append, text_eq]

theorem ready (stands : Stands text earlier lexer) : lexer.Ready := by
  cases stands <;> exact ⟨by simp, by simp⟩

theorem exists_before (stands : Stands text earlier lexer) :
    ∃ before, before ++ lexer.rest = text ∧ lexer.position = .after before := by
  cases stands with
  | start text_eq | inComment text_eq => exact ⟨_, text_eq, rfl⟩
  | inNumber text_eq => exact ⟨_, (List.append_assoc ..).trans text_eq, rfl⟩
  | maybeComment text_eq => exact ⟨_, (List.append_assoc ..).trans text_eq, rfl⟩

/-- **A turn leaves the lexer standing in the text**, behind the token that it yields. -/
theorem turn (stands : Stands text earlier lexer) (turned : lexer.turn = .went token after) :
    Stands text (earlier ++ [lexer]) after ∧
      ∀ found ∈ token, ∃ occurrence,
        YieldedAt text (earlier ++ [lexer]) after found occurrence := by
  have takes := takes_turn stands.ready
  rw [turned] at takes
  -- Each way to stand leaves few turns to take, none of which fails.
  cases stands with
  | @start before rest mark text_eq seam =>
      cases takes with
      | blank blank =>
          exact ⟨start_of_passed text_eq (not_isDigit_of_isSourceBlank blank), by simp⟩
      | @firstDigit char rest _ _ digit =>
          refine ⟨?_, by simp⟩
          rw [← Position.after_append_singleton, saturate_eq_literalValue]
          exact .inNumber text_eq (List.cons_ne_nil char []) (by simpa using digit) seam
            (markedAt_start earlier rest _ mark (.inl digit))
      | @operator char rest _ _ symbol notSlash =>
          refine ⟨start_of_passed text_eq (not_isDigit_of_isOperatorSymbol symbol), ?_⟩
          rintro _ ⟨⟩
          exact ⟨_, yieldedAt_of_spells text_eq (List.cons_ne_nil char []) (.operator symbol rfl)
            (Position.after_append_singleton before char).symm
            (markedAt_start earlier rest _ mark (.inr symbol))⟩
      | @slash rest =>
          refine ⟨?_, by simp⟩
          rw [← Position.after_append_singleton]
          exact .maybeComment text_eq (markedAt_start earlier rest _ mark (.inr (by decide)))
  | @inNumber before digits rest text_eq nonempty inside seam marked =>
      cases takes with
      | @digit char rest _ _ _ digit =>
          refine ⟨?_, by simp⟩
          have grown : saturate (literalValue digits) [char] = literalValue (digits ++ [char]) :=
            (literalValue_append_singleton digits char).symm
          have together : digits ++ char :: rest = (digits ++ [char]) ++ rest := by simp
          rw [← Position.after_append_singleton, grown, List.append_assoc]
          rw [together] at text_eq seam
          refine .inNumber text_eq (by simp) ?_ seam (marked.append _)
          exact List.forall_mem_append.mpr ⟨inside, by simpa using digit⟩
      | numberEnd ends =>
          -- The character that ended the number is left for the start, and is no digit.
          refine ⟨.start ((List.append_assoc ..).trans text_eq) fun _ _ _ => ends, ?_⟩
          rintro _ ⟨⟩
          exact ⟨_, yieldedAt_of_spells text_eq nonempty
            (Occurrence.spells_number nonempty inside seam ends) rfl (marked.append _)⟩
  | @maybeComment before rest text_eq marked =>
      have passed : (before ++ ['/']) ++ rest = text := (List.append_assoc ..).trans text_eq
      cases takes with
      | secondSlash => exact ⟨inComment_of_passed passed, by simp⟩
      | division single =>
          have symbol : isOperatorSymbol '/' := by decide
          refine ⟨.start passed (seam_append_singleton before rest (by decide)), ?_⟩
          rintro _ ⟨⟩
          exact ⟨_, yieldedAt_of_spells text_eq (List.cons_ne_nil '/' []) (.operator symbol rfl) rfl
            (marked.append _)⟩
  | inComment text_eq =>
      cases takes with
      | comment other => exact ⟨inComment_of_passed text_eq, by simp⟩
      | feed => exact ⟨start_of_passed text_eq (by decide), by simp⟩
      | commentEnd => exact ⟨.start text_eq (by simp [Seam]), by simp⟩

end Stands

/-- A turn in order, after the turns before it in a text. The lexer stands inside the text and has
not failed; it ends only at the end of the text, and if it does not, the table has an entry,
which is followed. An entry that consumes finds a character, and one that takes in a digit
finds a digit. A failure tells the character that the lexer stands at, and a token has a
place that was marked where its first character is. -/
structure Orderly (text : List Char) (earlier : List Lexer) (lexer : Lexer) : Prop where
  inside : lexer.position.offset ≤ text.length
  rest : lexer.rest = text.drop lexer.position.offset
  alive : lexer.state ≠ .error
  finishes : lexer.turn = .finished ↔ lexer.state = .start ∧ lexer.rest = []
  follows : lexer.turn ≠ .finished →
    ∃ entry, transition lexer.state (CharClass.of lexer.rest.head?) = some entry ∧
      lexer.turn = lexer.follow entry ∧
      (entry.consumes → lexer.position.offset < text.length) ∧
      (entry.effect = .accumulate → ∃ digit ∈ lexer.rest.head?, digit.isDigit)
  fails : ∀ diagnostic, lexer.turn = .failed diagnostic →
    ∃ char ∈ lexer.rest.head?, diagnostic = .unexpectedCharacter lexer.position char
  yields : ∀ token after, lexer.turn = .went (some token) after →
    ∃ occurrence, YieldedAt text (earlier ++ [lexer]) after token occurrence

theorem Stands.orderly (stands : Stands text earlier lexer) : Orderly text earlier lexer := by
  have ready := stands.ready
  obtain ⟨before, text_eq, place⟩ := stands.exists_before
  have offset : lexer.position.offset = before.length := by rw [place, Position.after_offset]
  have length : before.length + lexer.rest.length = text.length := by
    rw [← List.length_append, text_eq]
  refine ⟨by omega, ?_, ready.alive, turn_eq_finished_iff ready, fun unfinished => ?_,
    fun diagnostic failed => exists_of_turn_eq_failed ready failed,
    fun token after turned => (stands.turn turned).2 token rfl⟩
  · rw [offset, ← text_eq, List.drop_left]
  · rw [Ne, turn_eq_finished_iff ready, ← CharClass.of_head?_eq_endOfText_iff] at unfinished
    obtain ⟨entry, found, consumes, accumulates⟩ := exists_transition ready.alive unfinished
    refine ⟨entry, found, ?_, fun consumed => ?_, fun effect =>
      CharClass.exists_digit_of_head? (accumulates effect)⟩
    · simp only [Lexer.turn, if_neg unfinished, found]
    · have left := consumes consumed
      rw [Ne, CharClass.of_head?_eq_endOfText_iff] at left
      have positive := List.length_pos_iff.mpr left
      omega

/-- The first turn of a text's is in order, and so are all of them if the later ones are. -/
theorem Stands.orderly_cons (stands : Stands text earlier lexer)
    (later : ∀ older current newer, turns = older ++ current :: newer →
      Orderly text (earlier ++ lexer :: older) current) :
    ∀ older current newer, lexer :: turns = older ++ current :: newer →
      Orderly text (earlier ++ older) current := by
  intro older current newer split
  rcases List.cons_eq_append_iff.mp split with ⟨rfl, same⟩ | ⟨tail, rfl, rest⟩
  · obtain ⟨rfl, rfl⟩ := List.cons.inj same
    rw [List.append_nil]
    exact stands.orderly
  · exact later tail current newer rest

/-- **Each turn of a loop is in order**, as the one before leaves the lexer standing. -/
theorem Loop.orderly (loop : Loop lexer turns stream) (stands : Stands text earlier lexer) :
    ∀ older current newer, turns = older ++ current :: newer →
      Orderly text (earlier ++ older) current := by
  -- The turns that have been taken grow by one with each that is left behind.
  induction loop generalizing earlier with
  | finishes | fails => exact stands.orderly_cons (by simp)
  | moves turned rest ih | yields turned rest ih =>
      refine stands.orderly_cons fun older current newer split => ?_
      have orderly := ih (stands.turn turned).1 older current newer split
      rwa [List.append_assoc, List.singleton_append] at orderly

end Lexer

/-- **The lexer never leaves its table.** Its loop of turns ends, after at most two for each
character and one more; each turn is in order, so that the lexer finds an entry for what
comes next, passes no more than there is, and fails at a character that starts nothing. -/
theorem tokenize_turns (text : List Char) :
    (∃ turns, Lexer.Loop (.ofText text) turns (tokenize text)) ∧
      ∀ turns stream, Lexer.Loop (.ofText text) turns stream →
        stream = tokenize text ∧ turns.length ≤ 2 * text.length + 1 ∧
          ∀ earlier lexer later, turns = earlier ++ lexer :: later →
            lexer.Orderly text earlier := by
  have ready := Lexer.ready_ofText text
  have expected : (Lexer.ofText text).expected = tokenize text := (tokenize_eq text).symm
  have left : (Lexer.ofText text).turnsLeft = 2 * text.length + 1 := rfl
  constructor
  · obtain ⟨turns, stream, loop⟩ := Lexer.exists_loop ready
    rw [← expected, ← (loop.ends ready).1]
    exact ⟨turns, loop⟩
  · intro turns stream loop
    obtain ⟨same, few⟩ := loop.ends ready
    have seam : Seam [] text := by simp [Seam]
    have stands : Lexer.Stands text [] (.ofText text) := .start (List.nil_append text) seam
    exact ⟨same.trans expected, left ▸ few, loop.orderly stands⟩

/-- A quotient of two digits takes as many turns as its length allows. -/
theorem tokenize_turns_of_quotient :
    ∃ turns,
      Lexer.Loop (.ofText ['6', '/', '2']) turns
        ⟨[.number 6 (some ⟨0, 1, 1⟩), .operator "/" (some ⟨1, 1, 2⟩),
          .number 2 (some ⟨2, 1, 3⟩)], none⟩ ∧
      turns.length = 2 * 3 + 1 ∧
      ∀ earlier lexer later, turns = earlier ++ lexer :: later →
        lexer.Orderly ['6', '/', '2'] earlier := by
  obtain ⟨turns, seven, loop⟩ : ∃ turns, turns.length = 2 * 3 + 1 ∧
      Lexer.Loop (.ofText ['6', '/', '2']) turns
        (.cons (.number 6 (some ⟨0, 1, 1⟩)) (.cons (.operator "/" (some ⟨1, 1, 2⟩))
          (.cons (.number 2 (some ⟨2, 1, 3⟩)) ⟨[], none⟩))) :=
    ⟨_, rfl, .moves rfl (.yields rfl (.moves rfl (.yields rfl (.moves rfl (.yields rfl
      (.finishes rfl))))))⟩
  exact ⟨turns, loop, seven, ((tokenize_turns _).2 _ _ loop).2.2⟩

end ReversePolish
