import Mathlib.Data.List.Forall2

/-!
# Traversals that may fail

A traversal of a list fails with the first fault of its items, and succeeds with the results of all
of them.
-/
namespace SchemaDoc

variable {ε α β : Type}

/-- Why a run has failed, if it has. -/
def faultOf : Except ε α → Option ε
  | .ok _ => none
  | .error e => some e

@[simp] theorem faultOf_ok (a : α) : faultOf (.ok a : Except ε α) = none := rfl

@[simp] theorem faultOf_error (e : ε) : faultOf (.error e : Except ε α) = some e := rfl

theorem faultOf_eq_some_iff {r : Except ε α} {e : ε} : faultOf r = some e ↔ r = .error e := by
  cases r <;> simp

theorem faultOf_eq_none_iff {r : Except ε α} : faultOf r = none ↔ ∃ a, r = .ok a := by
  cases r <;> simp

theorem bind_eq_ok_iff {r : Except ε α} {next : α → Except ε β} {b : β} :
    r >>= next = .ok b ↔ ∃ a, r = .ok a ∧ next a = .ok b := by
  cases r <;> simp [bind, Except.bind]

theorem faultOf_mapM (f : α → Except ε β) (l : List α) :
    faultOf (l.mapM f) = l.findSome? fun a => faultOf (f a) := by
  induction l with
  | nil => rfl
  | cons a l ih =>
    rw [List.mapM_cons, List.findSome?_cons, ← ih]
    cases f a with
    | error e => rfl
    | ok b => cases l.mapM f <;> rfl

theorem mapM_eq_ok_iff {f : α → Except ε β} {l : List α} {r : List β} :
    l.mapM f = .ok r ↔ List.Forall₂ (fun a b => f a = .ok b) l r := by
  induction l generalizing r with
  | nil => cases r <;> simp [pure, Except.pure]
  | cons a l ih =>
    rw [List.mapM_cons]
    cases hf : f a with
    | error e => simp [List.forall₂_cons_left_iff, hf, bind, Except.bind]
    | ok b =>
      cases hl : l.mapM f with
      | error e => simp [List.forall₂_cons_left_iff, ← ih, hf, hl, bind, Except.bind]
      | ok rest =>
        simp [List.forall₂_cons_left_iff, ← ih, hf, hl, bind, Except.bind, pure,
          Except.pure, eq_comm]

theorem exists_mem_of_mapM {f : α → Except ε β} {l : List α} {r : List β} (h : l.mapM f = .ok r)
    {a : α} (ha : a ∈ l) : ∃ b ∈ r, f a = .ok b := by
  rw [mapM_eq_ok_iff] at h
  induction h with
  | nil => cases ha
  | @cons a' b _ _ hab _ ih =>
    rcases List.mem_cons.mp ha with rfl | ha
    · exact ⟨b, List.mem_cons_self, hab⟩
    · obtain ⟨b', hb', hab'⟩ := ih ha
      exact ⟨b', List.mem_cons_of_mem _ hb', hab'⟩

theorem mapM_eq_of_forall₂ {R : α → α → Prop} {f : α → Except ε β} {l m : List α}
    (h : List.Forall₂ R l m) (hf : ∀ a b, R a b → f a = f b) : l.mapM f = m.mapM f := by
  induction h with
  | nil => rfl
  | cons hab _ ih => rw [List.mapM_cons, List.mapM_cons, hf _ _ hab, ih]

theorem exists_map_eq_iff {P : α → Prop} {f : α → β} {l : List β} :
    (∃ m : List α, (∀ a ∈ m, P a) ∧ m.map f = l) ↔ ∀ b ∈ l, ∃ a, P a ∧ f a = b := by
  constructor
  · rintro ⟨m, hm, rfl⟩
    exact List.forall_mem_map.mpr fun a ha => ⟨a, hm a ha, rfl⟩
  · intro h
    induction l with
    | nil => exact ⟨[], by simp⟩
    | cons b l ih =>
      rw [List.forall_mem_cons] at h
      obtain ⟨⟨a, ha, rfl⟩, hl⟩ := h
      obtain ⟨m, hm, rfl⟩ := ih hl
      exact ⟨a :: m, List.forall_mem_cons.mpr ⟨ha, hm⟩, rfl⟩

theorem forall_mem_of_forall₂ {R : α → β → Prop} {Q : β → Prop} {l : List α} {m : List β}
    (h : List.Forall₂ R l m) (hQ : ∀ a b, R a b → Q b) : ∀ b ∈ m, Q b := by
  induction h with
  | nil => simp
  | cons hab _ ih => exact List.forall_mem_cons.mpr ⟨hQ _ _ hab, ih⟩

theorem forall_mem_iff_of_forall₂ {R : α → β → Prop} {p : α → Prop} {q : β → Prop} {l : List α}
    {m : List β} (h : List.Forall₂ R l m) (hpq : ∀ a b, R a b → (q b ↔ p a)) :
    (∀ b ∈ m, q b) ↔ ∀ a ∈ l, p a := by
  induction h with
  | nil => simp
  | cons hab _ ih => rw [List.forall_mem_cons, List.forall_mem_cons, hpq _ _ hab, ih]

theorem forall₂_trans {γ : Type} {R : α → β → Prop} {S : β → γ → Prop} {T : α → γ → Prop}
    {l : List α} {m : List β} {n : List γ} (hlm : List.Forall₂ R l m) (hmn : List.Forall₂ S m n)
    (h : ∀ a b c, R a b → S b c → T a c) : List.Forall₂ T l n := by
  induction hlm generalizing n with
  | nil =>
    cases hmn
    exact .nil
  | cons hab _ ih =>
    cases hmn with
    | cons hbc hmn => exact .cons (h _ _ _ hab hbc) (ih hmn)

theorem forall_mem_iff_of_mapM {f : α → Except ε β} {l : List α} {r : List β} (h : l.mapM f = .ok r)
    {p : α → Prop} {q : β → Prop} (hpq : ∀ a b, f a = .ok b → (q b ↔ p a)) :
    (∀ b ∈ r, q b) ↔ ∀ a ∈ l, p a :=
  forall_mem_iff_of_forall₂ (mapM_eq_ok_iff.mp h) hpq

theorem mapM_append_eq_ok_iff {f : α → Except ε β} {l m : List α} {r : List β} :
    (l ++ m).mapM f = .ok r ↔ ∃ a b, l.mapM f = .ok a ∧ m.mapM f = .ok b ∧ r = a ++ b := by
  simp only [List.mapM_append, bind_eq_ok_iff, pure, Except.pure, Except.ok.injEq]
  constructor
  · rintro ⟨a, ha, b, hb, rfl⟩
    exact ⟨a, b, ha, hb, rfl⟩
  · rintro ⟨a, b, ha, hb, rfl⟩
    exact ⟨a, ha, b, hb, rfl⟩

theorem mapM_bind_eq_ok_iff {γ : Type} {f : α → Except ε β} {g : β → Except ε γ} {l : List α}
    {r : List γ} :
    (l.mapM fun a => f a >>= g) = .ok r ↔ ∃ m, l.mapM f = .ok m ∧ m.mapM g = .ok r := by
  simp only [mapM_eq_ok_iff, bind_eq_ok_iff]
  constructor
  · intro h
    induction h with
    | nil => exact ⟨[], .nil, .nil⟩
    | cons hac _ ih =>
      obtain ⟨b, hab, hbc⟩ := hac
      obtain ⟨m, hm, hr⟩ := ih
      exact ⟨b :: m, .cons hab hm, .cons hbc hr⟩
  · rintro ⟨m, hm, hr⟩
    induction hm generalizing r with
    | nil =>
      cases hr
      exact .nil
    | cons hab _ ih =>
      cases hr with
      | cons hbc hrest => exact .cons ⟨_, hab, hbc⟩ (ih hrest)

/-- A run that has a fault, or else gives its result. -/
def failOr (fault? : Option ε) (a : α) : Except ε α :=
  match fault? with
  | none => .ok a
  | some e => .error e

@[simp] theorem faultOf_failOr (fault? : Option ε) (a : α) :
    faultOf (failOr fault? a) = fault? := by
  cases fault? <;> rfl

theorem failOr_eq_failOr_iff {f g : Option ε} {a b : α} :
    failOr f a = failOr g b ↔ f = g ∧ (f = none → a = b) := by
  cases f <;> cases g <;> simp [failOr]

theorem failOr_bind (f g : Option ε) (a : α) (next : α → Except ε β) (b : β)
    (h : next a = failOr g b) : (failOr f a >>= next) = failOr (f.or g) b := by
  cases f with
  | none => exact h
  | some e => rfl

theorem failOr_bind_pure (f : Option ε) (a : α) (g : α → β) :
    (failOr f a >>= fun a => pure (g a)) = failOr f (g a) := by
  cases f <;> rfl

theorem mapM_failOr (f : α → Option ε) (g : α → β) (l : List α) :
    (l.mapM fun a => failOr (f a) (g a)) = failOr (l.findSome? f) (l.map g) := by
  induction l with
  | nil => rfl
  | cons a l ih =>
    rw [List.mapM_cons, ih, List.findSome?_cons]
    cases f a with
    | some e => rfl
    | none => cases l.findSome? f <;> rfl

end SchemaDoc
