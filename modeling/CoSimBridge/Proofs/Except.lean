import Mathlib.Data.List.Forall2
/-! Computations that can fail: taking a successful bind apart, and loops that succeed exactly
when every step does. -/

namespace CoSimBridge
set_option autoImplicit false

theorem Except.exists_of_bind_eq_ok {ε α β : Type} {x : Except ε α} {f : α → Except ε β} {b : β}
    (h : (x >>= f) = .ok b) : ∃ a, x = .ok a ∧ f a = .ok b := by
  cases x with
  | error e => cases h
  | ok a => exact ⟨a, rfl, h⟩

@[simp] theorem Except.mapError_eq_ok {ε ε' α : Type} {x : Except ε α} {g : ε → ε'} {a : α} :
    x.mapError g = .ok a ↔ x = .ok a := by
  cases x with
  | error e => exact ⟨fun h => (nomatch h), fun h => (nomatch h)⟩
  | ok a' => exact ⟨fun h => by cases h; rfl, fun h => by cases h; rfl⟩

theorem List.forM_except_eq_ok {α ε : Type} {g : α → Except ε Unit} :
    ∀ {l : List α}, l.forM g = .ok () ↔ ∀ a ∈ l, g a = .ok ()
  | [] => by simp [List.forM]; rfl
  | a :: l => by
    simp only [List.forM]
    cases h : g a with
    | error e => simp [h, bind, Except.bind]
    | ok u => simpa [h, bind, Except.bind] using forM_except_eq_ok (l := l)

theorem List.forM_except_eq_error {α ε : Type} {g : α → Except ε Unit} {e : ε} :
    ∀ {l : List α}, l.forM g = .error e → ∃ a ∈ l, g a = .error e
  | [], h => by cases h
  | a :: l, h => by
    simp only [List.forM] at h
    cases ha : g a with
    | error e' =>
      rw [ha] at h
      cases h
      exact ⟨a, by simp, ha⟩
    | ok u =>
      rw [ha] at h
      obtain ⟨b, hb, hgb⟩ := forM_except_eq_error h
      exact ⟨b, by simp [hb], hgb⟩

/-- A successful `mapM` relates every input to its own result. -/
theorem List.mapM_except_forall₂ {α β ε : Type} {f : α → Except ε β} :
    ∀ {xs : List α} {ys : List β}, xs.mapM f = .ok ys →
      List.Forall₂ (fun x y => f x = .ok y) xs ys
  | [], ys, h => by
    cases h
    exact .nil
  | x :: xs, ys, h => by
    rw [List.mapM_cons] at h
    obtain ⟨y, hy, h⟩ := Except.exists_of_bind_eq_ok h
    obtain ⟨ys', hys, h⟩ := Except.exists_of_bind_eq_ok h
    cases h
    exact .cons hy (mapM_except_forall₂ hys)

/-- A `mapM` succeeds with the results its function gives each input. -/
theorem List.mapM_except_of_forall₂ {α β ε : Type} {f : α → Except ε β} :
    ∀ {xs : List α} {ys : List β}, List.Forall₂ (fun x y => f x = .ok y) xs ys →
      xs.mapM f = .ok ys
  | _, _, .nil => rfl
  | _, _, .cons hxy h => by
    rw [List.mapM_cons, hxy, mapM_except_of_forall₂ h]
    rfl

theorem List.mapM_except_eq_ok_iff {α β ε : Type} {f : α → Except ε β} {xs : List α}
    {ys : List β} : xs.mapM f = .ok ys ↔ List.Forall₂ (fun x y => f x = .ok y) xs ys :=
  ⟨mapM_except_forall₂, mapM_except_of_forall₂⟩

end CoSimBridge
