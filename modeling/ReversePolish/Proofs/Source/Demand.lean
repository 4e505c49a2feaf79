import Mathlib.Order.Bounds.Defs
import ReversePolish.Proofs.Source.Boundary

/-! # Tokens on demand

The lexer fails at a boundary of the text (`exists_stopsAt`). So the text before the failure is
read as it is on its own, and no longer start of the text is accepted: the lexer fails behind
the longest start in which it finds no mistake. Whoever takes some tokens only gets the
first of them, and is told of the failure only if they run out before
(`Lexer.pull_eq_limited`).
-/

namespace ReversePolish

variable {text before : List Char} {char : Char} {diagnostic : Diagnostic}

/-! ## The text before a mistake -/

/-- A character that a text without mistakes may not go on with. -/
structure StopsAt (before : List Char) (char : Char) : Prop where
  boundary : Boundary before [char]
  startsNothing : StartsNothing char
  accepted : (tokenize before).failure = none

/-- Whatever comes behind the character, the tokens are those of the text before it. -/
theorem StopsAt.tokenize_eq (stops : StopsAt before char) (later : List Char) :
    tokenize (before ++ char :: later) =
      ⟨(tokenize before).tokens, some (.unexpectedCharacter (.after before) char)⟩ := by
  obtain ⟨boundary, ⟨notBlank, notDigit, notSymbol⟩, accepted⟩ := stops
  rw [ReversePolish.tokenize_eq] at accepted
  rw [ReversePolish.tokenize_eq, ReversePolish.tokenize_eq,
    (boundary.of_head later).readTokens_append, readTokens_of_other notBlank notDigit notSymbol,
    TokenStream.append, accepted, List.append_nil]
  rfl

/-- A mistake stands inside the text that it is found in. -/
theorem offset_lt_of_failure {position : Position}
    (failed : (tokenize text).failure = some (.unexpectedCharacter position char)) :
    position.offset < text.length := by
  cases (tokenize_atBoundaries text).failure _ failed with
  | unexpectedCharacter split boundary startsNothing =>
      rw [Position.after_offset, split, List.length_append, List.length_cons]
      omega

/-- The lexer fails where the text before could end. -/
theorem exists_stopsAt (failed : (tokenize text).failure = some diagnostic) :
    ∃ before char later, text = before ++ char :: later ∧ StopsAt before char ∧
      diagnostic = .unexpectedCharacter (.after before) char := by
  cases (tokenize_atBoundaries text).failure _ failed with
  | @unexpectedCharacter before later char split boundary startsNothing =>
      refine ⟨before, char, later, split, ⟨boundary.of_head [], startsNothing, ?_⟩, rfl⟩
      -- A mistake before the boundary would be the one that is told of the whole text.
      by_contra rejected
      obtain ⟨earlier, failedBefore⟩ := Option.ne_none_iff_exists'.mp rejected
      have same : (tokenize text).failure = some earlier := by
        rw [tokenize_eq] at failedBefore
        rw [split, tokenize_eq, boundary.readTokens_append, TokenStream.append, failedBefore]
        exact failedBefore
      obtain rfl := Option.some.inj (same.symm.trans failed)
      have inside := offset_lt_of_failure failedBefore
      rw [Position.after_offset] at inside
      exact lt_irrefl _ inside

/-! ## The longest start without a mistake -/

/-- The lengths of the starts of a text in which the lexer finds no mistake. -/
def acceptedLengths (text : List Char) : Set Nat :=
  {length | length ≤ text.length ∧ (tokenize (text.take length)).failure = none}

theorem isGreatest_of_accepted (accepted : (tokenize text).failure = none) :
    IsGreatest (acceptedLengths text) text.length := by
  refine ⟨⟨le_refl text.length, ?_⟩, fun length member => member.1⟩
  rwa [List.take_length]

/-- A start that reaches further has the character in it. -/
theorem StopsAt.isGreatest (stops : StopsAt before char) (later : List Char) :
    IsGreatest (acceptedLengths (before ++ char :: later)) before.length := by
  constructor
  · refine ⟨by simp, ?_⟩
    rw [List.take_left]
    exact stops.accepted
  · rintro length ⟨-, accepted⟩
    by_contra longer
    obtain ⟨more, rfl⟩ : ∃ more, length = before.length + (more + 1) :=
      ⟨length - before.length - 1, by omega⟩
    rw [List.take_length_add_append, List.take_succ_cons, stops.tokenize_eq] at accepted
    cases accepted

/-! ## Taking some tokens -/

/-- What is seen of a stream by taking at most `limit` of its tokens: a failure only if the
tokens before it are too few. -/
def TokenStream.limited (limit : Nat) (stream : TokenStream) : TokenStream where
  tokens := stream.tokens.take limit
  failure := if stream.tokens.length < limit then stream.failure else none

theorem TokenStream.limited_cons (limit : Nat) (token : Token) (stream : TokenStream) :
    (stream.cons token).limited (limit + 1) = (stream.limited limit).cons token := by
  simp [limited, cons]

namespace Lexer

variable {lexer after : Lexer}

/-- What asking for one token comes to: it is the first of what is expected, and the automaton
is left at its start to yield the rest. -/
inductive Delivery (lexer : Lexer) : Turn → Prop where
  | finished (expected : lexer.expected = ⟨[], none⟩) : Delivery lexer .finished
  | failed {diagnostic : Diagnostic} (expected : lexer.expected = ⟨[], some diagnostic⟩) :
      Delivery lexer (.failed diagnostic)
  | yielded {token : Token} {after : Lexer} (expected : lexer.expected = after.expected.cons token)
      (ready : after.Ready) (start : after.state = .start) :
      Delivery lexer (.went (some token) after)

/-- A token is yielded on the way back to the start. -/
theorem start_of_turn {token : Token} (ready : lexer.Ready)
    (turned : lexer.turn = .went (some token) after) : after.state = .start := by
  have takes := takes_turn ready
  rw [turned] at takes
  cases takes <;> rfl

theorem delivery_next {turns : Nat} (ready : lexer.Ready) (enough : lexer.turnsLeft ≤ turns) :
    Delivery lexer (lexer.next turns) := by
  induction turns generalizing lexer with
  | zero =>
      have positive := lexer.turnsLeft_pos
      omega
  | succ turns ih =>
      have progress := progress_turn ready
      rw [next]
      cases turned : lexer.turn with
      | finished =>
          rw [turned] at progress
          cases progress with
          | finished expected => exact .finished expected
      | failed diagnostic =>
          rw [turned] at progress
          cases progress with
          | failed expected => exact .failed expected
      | went token after =>
          rw [turned] at progress
          cases progress with
          | moved expected ready fewer =>
              have later := ih ready (Nat.lt_succ_iff.mp (Nat.lt_of_lt_of_le fewer enough))
              simp only
              generalize next turns after = outcome at later
              cases later with
              | finished found => exact .finished (expected.trans found)
              | failed found => exact .failed (expected.trans found)
              | yielded found ready start => exact .yielded (expected.trans found) ready start
          | yielded expected afterReady fewer =>
              exact .yielded expected afterReady (start_of_turn ready turned)

/-- **Taking some tokens is taking the first of all of them.** -/
theorem pull_eq_limited (ready : lexer.Ready) (start : lexer.state = .start) (limit : Nat) :
    lexer.pull limit = lexer.expected.limited limit := by
  induction limit generalizing lexer with
  | zero => simp [pull, TokenStream.limited]
  | succ limit ih =>
      have enough : lexer.turnsLeft ≤ lexer.turnLimit := by simp [turnsLeft, turnLimit, start]
      have delivery := delivery_next ready enough
      rw [pull]
      generalize lexer.next lexer.turnLimit = outcome at delivery
      cases delivery with
      | finished expected => simp [expected, TokenStream.limited]
      | failed expected => simp [expected, TokenStream.limited]
      | yielded expected ready start => rw [expected, TokenStream.limited_cons, ← ih ready start]

end Lexer

theorem pullTokens_eq (limit : Nat) (text : List Char) :
    pullTokens limit text = (tokenize text).limited limit := by
  rw [pullTokens, Lexer.pull_eq_limited (Lexer.ready_ofText text) rfl, tokenize_eq]
  rfl

/-- **The lexer fails as late as it can**, behind the longest start of the text in which it finds
no mistake, and only if that is not all of the text. Before the failure it yields the
tokens of that start, what is pending at its end included. Taking some tokens gives the first
of them, and tells the failure exactly if fewer tokens than asked for come before it. -/
theorem tokenize_lazy (text : List Char) :
    (∃ length, IsGreatest (acceptedLengths text) length ∧
      ((tokenize text).failure ≠ none ↔ length < text.length) ∧
      (tokenize text).tokens = (tokenize (text.take length)).tokens ∧
      ∀ diagnostic, (tokenize text).failure = some diagnostic →
        ∃ position char, diagnostic = .unexpectedCharacter position char ∧
          position.offset = length ∧ text[length]? = some char) ∧
    ∀ limit, (pullTokens limit text).tokens = (tokenize text).tokens.take limit ∧
      ∀ diagnostic, (pullTokens limit text).failure = some diagnostic ↔
        (tokenize text).failure = some diagnostic ∧ (tokenize text).tokens.length < limit := by
  constructor
  · cases failure : (tokenize text).failure with
    | none =>
        refine ⟨text.length, isGreatest_of_accepted failure, by simp, ?_, by simp⟩
        rw [List.take_length]
    | some diagnostic =>
        obtain ⟨before, char, later, rfl, stops, rfl⟩ := exists_stopsAt failure
        refine ⟨before.length, stops.isGreatest later, by simp, ?_, ?_⟩
        · rw [List.take_left, stops.tokenize_eq]
        · rintro _ ⟨⟩
          exact ⟨_, char, rfl, Position.after_offset before, by simp⟩
  · intro limit
    rw [pullTokens_eq]
    refine ⟨rfl, fun diagnostic => ?_⟩
    rw [TokenStream.limited]
    split_ifs with room <;> simp [room]

end ReversePolish
