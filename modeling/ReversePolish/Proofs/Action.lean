/-! # Computations that keep what they changed

A computation on a state goes on from where the one before it left the state; where that
one fails, so does the whole.
-/

namespace ReversePolish

variable {ε σ α β : Type} {action : EStateM ε σ α} {next : α → EStateM ε σ β} {state after : σ}
  {outcome : α} {failure : ε}

theorem bind_of_ok (succeeds : action state = .ok outcome after) :
    (action >>= next) state = next outcome after := by
  simp only [bind, EStateM.bind, succeeds]

theorem bind_of_error (fails : action state = .error failure after) :
    (action >>= next) state = .error failure after := by
  simp only [bind, EStateM.bind, fails]

@[simp] theorem pure_apply (outcome : α) (state : σ) :
    (pure outcome : EStateM ε σ α) state = .ok outcome state := rfl

@[simp] theorem get_apply (state : σ) : (get : EStateM ε σ σ) state = .ok state state := rfl

@[simp] theorem set_apply (state after : σ) :
    (set after : EStateM ε σ PUnit) state = .ok ⟨⟩ after := rfl

end ReversePolish
