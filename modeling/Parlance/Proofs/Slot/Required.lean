import Parlance.Slot

/-!
# Slots of parameters that must be given

Required values and fixed words at the beginning of a usage take the first
tokens one by one, as long as there are enough of them.
-/

set_option autoImplicit false

namespace Parlance.Slot

/-- Parameters that must be given take one token each, in their order. -/
theorem assignFrom_append_of_isRequired {front : List Parameter} (back : List Parameter)
    {count cursor : Nat} (hfront : ∀ p ∈ front, p.isRequired = true)
    (hcount : cursor + front.length ≤ count) :
    assignFrom count cursor (front ++ back) =
      ((List.range' cursor front.length).map token ++
          (assignFrom count (cursor + front.length) back).1,
        (assignFrom count (cursor + front.length) back).2) := by
  induction front generalizing cursor with
  | nil => rfl
  | cons p ps ih =>
    rw [List.forall_mem_cons] at hfront
    rw [List.length_cons] at hcount ⊢
    have hnext : cursor + 1 + ps.length = cursor + (ps.length + 1) := by omega
    have hlt : cursor < count := by omega
    have hnextCount : cursor + 1 + ps.length ≤ count := by omega
    have hrest := ih hfront.2 hnextCount
    rw [hnext] at hrest
    have hkind := hfront.1
    unfold Parameter.isRequired at hkind
    rw [List.cons_append, assignFrom, List.range'_succ, List.map_cons, List.cons_append]
    split at hkind
    · next heq => simp [heq, hlt, hrest]
    · next heq => simp [heq, hlt, hrest]
    · cases hkind

theorem assign_of_isRequired {ps : List Parameter} {count : Nat}
    (hps : ∀ p ∈ ps, p.isRequired = true) (hcount : ps.length ≤ count) :
    assign ps count = ((List.range' 0 ps.length).map token, ps.length) := by
  have hcursor : 0 + ps.length ≤ count := by omega
  have hassigned := assignFrom_append_of_isRequired [] hps hcursor
  rw [List.append_nil] at hassigned
  simpa [assign, assignFrom] using hassigned

/-- Each parameter in front that must be given gets the token that stands where it
does, whatever comes behind. -/
theorem getElem?_assign_append {front : List Parameter} (back : List Parameter) {count index : Nat}
    (hfront : ∀ p ∈ front, p.isRequired = true) (hcount : front.length ≤ count)
    (hindex : index < front.length) :
    (assign (front ++ back) count).1[index]? = some (token index) := by
  have hcursor : 0 + front.length ≤ count := by omega
  have hlength : index < ((List.range' 0 front.length).map token).length := by simpa using hindex
  rw [assign, assignFrom_append_of_isRequired back hfront hcursor,
    List.getElem?_append_left hlength]
  simp [hindex]

end Parlance.Slot
