import Mathlib.Data.List.Forall2

/-!
# Traversals that may fail

A traversal in `Except` succeeds exactly when each of its steps does, and its result is then related
to its input step by step. When it fails, it fails with the fault of the first step that does.
-/

namespace ClassRom.Traversal

set_option autoImplicit false

universe u v
variable {ε : Type u} {α β γ : Type v}

theorem bind_eq_ok {result : Except ε α} {next : α → Except ε β} {value : β} :
    (result >>= next) = .ok value ↔ ∃ middle, result = .ok middle ∧ next middle = .ok value := by
  cases result <;> simp [bind, Except.bind]

theorem bind_eq_error {result : Except ε α} {next : α → Except ε β} {fault : ε} :
    (result >>= next) = .error fault ↔
      result = .error fault ∨ ∃ middle, result = .ok middle ∧ next middle = .error fault := by
  cases result <;> simp [bind, Except.bind]

theorem pure_eq_ok {value value' : α} :
    (pure value : Except ε α) = .ok value' ↔ value = value' := by
  simp [pure, Except.pure]

theorem pure_ne_error {value : α} {fault : ε} : (pure value : Except ε α) ≠ .error fault := by
  simp [pure, Except.pure]

theorem mapM_eq_ok {f : α → Except ε β} {xs : List α} {ys : List β} :
    xs.mapM f = .ok ys ↔ List.Forall₂ (fun x y => f x = .ok y) xs ys := by
  induction xs generalizing ys with
  | nil => rw [List.mapM_nil, pure_eq_ok, List.forall₂_nil_left_iff, eq_comm]
  | cons x xs ih =>
    rw [List.mapM_cons, List.forall₂_cons_left_iff, bind_eq_ok]
    constructor
    · rintro ⟨y, hy, h⟩
      obtain ⟨rest, hRest, h⟩ := bind_eq_ok.mp h
      exact ⟨y, rest, hy, ih.mp hRest, (pure_eq_ok.mp h).symm⟩
    · rintro ⟨y, rest, hy, hRest, rfl⟩
      exact ⟨y, hy, bind_eq_ok.mpr ⟨rest, ih.mpr hRest, rfl⟩⟩

theorem mapM_congr {m : Type → Type} [Monad m] [LawfulMonad m] {β : Type} {f g : α → m β}
    {xs : List α} (h : ∀ x ∈ xs, f x = g x) : xs.mapM f = xs.mapM g := by
  induction xs with
  | nil => rfl
  | cons x xs ih =>
    obtain ⟨hHead, hRest⟩ := List.forall_mem_cons.mp h
    rw [List.mapM_cons, List.mapM_cons, hHead, ih hRest]

/-- A traversal fails with the fault of the first of its steps that does. -/
theorem mapM_eq_error_iff {f : α → Except ε β} {xs : List α} {e : ε} :
    xs.mapM f = .error e ↔
      ∃ before x after, xs = before ++ x :: after ∧ (∀ x' ∈ before, ∃ y, f x' = .ok y) ∧
        f x = .error e := by
  induction xs with
  | nil => exact iff_of_false pure_ne_error (by simp)
  | cons a xs ih =>
    rw [List.mapM_cons, bind_eq_error]
    constructor
    · rintro (h | ⟨b, hb, h⟩)
      · exact ⟨[], a, xs, rfl, by simp, h⟩
      · rcases bind_eq_error.mp h with h | ⟨_, _, h⟩
        · obtain ⟨before, x, after, rfl, hBefore, hx⟩ := ih.mp h
          exact ⟨a :: before, x, after, rfl, List.forall_mem_cons.mpr ⟨⟨b, hb⟩, hBefore⟩, hx⟩
        · exact absurd h pure_ne_error
    · rintro ⟨before, x, after, hSplit, hBefore, hx⟩
      cases before with
      | nil =>
        cases hSplit
        exact .inl hx
      | cons a' before =>
        cases hSplit
        obtain ⟨⟨b, hb⟩, hRest⟩ := List.forall_mem_cons.mp hBefore
        exact .inr ⟨b, hb, bind_eq_error.mpr (.inl (ih.mpr ⟨before, x, after, rfl, hRest, hx⟩))⟩

theorem mapM_eq_error {f : α → Except ε β} {xs : List α} {e : ε} (h : xs.mapM f = .error e) :
    ∃ x ∈ xs, f x = .error e := by
  obtain ⟨before, x, after, rfl, _, hx⟩ := mapM_eq_error_iff.mp h
  exact ⟨x, List.mem_append_right before List.mem_cons_self, hx⟩

/-- A traversal whose steps are known when they succeed is a map when it succeeds. -/
theorem eq_map_of_mapM_eq_ok {f : α → Except ε β} {g : α → β} {xs : List α} {ys : List β}
    (hf : ∀ x y, f x = .ok y → y = g x) (h : xs.mapM f = .ok ys) : ys = xs.map g := by
  rw [mapM_eq_ok] at h
  induction h with
  | nil => rfl
  | cons hHead _ ih => rw [List.map_cons, ← hf _ _ hHead, ← ih]

theorem option_mapM_eq_ok {f : α → Except ε β} {x : Option α} {y : Option β} :
    x.mapM f = .ok y ↔ Option.Rel (fun x y => f x = .ok y) x y := by
  cases x with
  | none => cases y <;> simp [pure_eq_ok]
  | some x =>
    rw [Option.mapM_some, map_eq_pure_bind, bind_eq_ok]
    cases y <;> simp [pure_eq_ok]

theorem option_rel_imp {R S : α → β → Prop} {x : Option α} {y : Option β}
    (h : ∀ a b, R a b → S a b) (hRel : Option.Rel R x y) : Option.Rel S x y := by
  cases hRel with
  | none => exact .none
  | some hR => exact .some (h _ _ hR)

theorem option_rel_comp {R : α → β → Prop} {S : β → γ → Prop} {T : α → γ → Prop} {x : Option α}
    {y : Option β} {z : Option γ} (h : ∀ a b c, R a b → S b c → T a c) (hR : Option.Rel R x y)
    (hS : Option.Rel S y z) : Option.Rel T x z := by
  cases hR with
  | none => cases hS; exact .none
  | some hR =>
    cases hS with
    | some hS => exact .some (h _ _ _ hR hS)

theorem exists_left_of_rel_some {R : α → β → Prop} {x : Option α} {b : β}
    (h : Option.Rel R x (some b)) : ∃ a, x = some a ∧ R a b := by
  cases h with
  | some hR => exact ⟨_, rfl, hR⟩

theorem exists_right_of_some_rel {R : α → β → Prop} {a : α} {y : Option β}
    (h : Option.Rel R (some a) y) : ∃ b, y = some b ∧ R a b := by
  cases h with
  | some hR => exact ⟨_, rfl, hR⟩

theorem forall₂_comp {R : α → β → Prop} {S : β → γ → Prop} {T : α → γ → Prop} {xs : List α}
    {ys : List β} {zs : List γ} (h : ∀ a b c, R a b → S b c → T a c) (hR : List.Forall₂ R xs ys)
    (hS : List.Forall₂ S ys zs) : List.Forall₂ T xs zs := by
  induction hR generalizing zs with
  | nil => cases hS; exact .nil
  | cons hHead _ ih =>
    cases hS with
    | cons hHead' hTail => exact .cons (h _ _ _ hHead hHead') (ih hTail)

theorem exists_forall₂ {R : α → β → Prop} {xs : List α} (h : ∀ x ∈ xs, ∃ y, R x y) :
    ∃ ys, List.Forall₂ R xs ys := by
  induction xs with
  | nil => exact ⟨[], .nil⟩
  | cons x xs ih =>
    obtain ⟨y, hy⟩ := h x List.mem_cons_self
    obtain ⟨ys, hys⟩ := ih fun x' hx' => h x' (List.mem_cons_of_mem x hx')
    exact ⟨y :: ys, .cons hy hys⟩

theorem getElem?_rel {R : α → β → Prop} {xs : List α} {ys : List β} (h : List.Forall₂ R xs ys)
    (i : Nat) : Option.Rel R xs[i]? ys[i]? := by
  induction h generalizing i with
  | nil => exact .none
  | cons hHead _ ih =>
    cases i with
    | zero => exact .some hHead
    | succ i => exact ih i

/-- A list is what its positions hold, one after the other. -/
theorem filterMap_getElem?_range (xs : List α) :
    (List.range xs.length).filterMap (xs[·]?) = xs := by
  have hRange : (List.range xs.length).map (xs[·]?) = xs.map some := by
    refine List.ext_getElem? fun i => ?_
    rw [List.getElem?_map, List.getElem?_map]
    by_cases hi : i < xs.length
    · rw [List.getElem?_range hi, Option.map_some, List.getElem?_eq_getElem hi]
      rfl
    · rw [List.getElem?_eq_none (by simpa using hi), List.getElem?_eq_none (Nat.not_lt.mp hi)]
      rfl
  calc (List.range xs.length).filterMap (xs[·]?)
      = ((List.range xs.length).map (xs[·]?)).filterMap fun x => x := by
        rw [List.filterMap_map]; rfl
    _ = (xs.map some).filterMap fun x => x := by rw [hRange]
    _ = xs := List.filterMap_map.trans List.filterMap_some

theorem exists_right_of_mem {R : α → β → Prop} {xs : List α} {ys : List β} {x : α}
    (h : List.Forall₂ R xs ys) (hx : x ∈ xs) : ∃ y ∈ ys, R x y := by
  induction h with
  | nil => cases hx
  | @cons a b _ _ hHead _ ih =>
    rcases List.mem_cons.mp hx with rfl | hRest
    · exact ⟨b, List.mem_cons_self, hHead⟩
    · obtain ⟨y, hy, hR⟩ := ih hRest
      exact ⟨y, List.mem_cons_of_mem b hy, hR⟩

theorem exists_left_of_mem {R : α → β → Prop} {xs : List α} {ys : List β} {y : β}
    (h : List.Forall₂ R xs ys) (hy : y ∈ ys) : ∃ x ∈ xs, R x y := by
  have hFlip : List.Forall₂ (fun y x => R x y) ys xs := List.Forall₂.flip h
  exact exists_right_of_mem hFlip hy

theorem mapM_isOk_iff {f : α → Except ε β} {xs : List α} :
    (∃ ys, xs.mapM f = .ok ys) ↔ ∀ x ∈ xs, ∃ y, f x = .ok y := by
  simp only [mapM_eq_ok]
  refine ⟨fun ⟨_, hSteps⟩ x hx => ?_, exists_forall₂⟩
  obtain ⟨y, _, hxy⟩ := exists_right_of_mem hSteps hx
  exact ⟨y, hxy⟩

theorem mem_iff_of_mapM_eq_ok {f : α → Except ε β} {xs : List α} {ys : List β}
    (h : xs.mapM f = .ok ys) {y : β} : y ∈ ys ↔ ∃ x ∈ xs, f x = .ok y := by
  have hSteps := mapM_eq_ok.mp h
  constructor
  · intro hy
    exact exists_left_of_mem hSteps hy
  · rintro ⟨x, hx, hxy⟩
    obtain ⟨y', hy', hxy'⟩ := exists_right_of_mem hSteps hx
    rw [hxy] at hxy'
    cases hxy'
    exact hy'

theorem mapM_eq_ok_self {f : α → Except ε α} {xs : List α} :
    xs.mapM f = .ok xs ↔ ∀ x ∈ xs, f x = .ok x := by
  rw [mapM_eq_ok, List.forall₂_same]

theorem option_mapM_eq_ok_self {f : α → Except ε α} {xs : Option (List α)} :
    xs.mapM (fun xs => xs.mapM f) = .ok xs ↔ ∀ x ∈ xs.getD [], f x = .ok x := by
  cases xs with
  | none => simp [pure_eq_ok]
  | some xs => rw [option_mapM_eq_ok, Option.rel_some_some, mapM_eq_ok_self, Option.getD_some]

theorem forall₂_getD {R : α → β → Prop} {xs : Option (List α)} {ys : Option (List β)}
    (h : Option.Rel (List.Forall₂ R) xs ys) : List.Forall₂ R (xs.getD []) (ys.getD []) := by
  cases h with
  | none => exact .nil
  | some hRows => exact hRows

theorem map_eq_of_forall₂ {R : α → α → Prop} {f : α → β} {xs ys : List α}
    (hf : ∀ x y, R x y → f y = f x) (h : List.Forall₂ R xs ys) : ys.map f = xs.map f := by
  induction h with
  | nil => rfl
  | cons hHead _ ih => rw [List.map_cons, List.map_cons, hf _ _ hHead, ih]

theorem flatMap_eq_of_forall₂ {R : α → α → Prop} {f : α → List β} {xs ys : List α}
    (hf : ∀ x y, R x y → f y = f x) (h : List.Forall₂ R xs ys) : ys.flatMap f = xs.flatMap f := by
  rw [List.flatMap_def, List.flatMap_def, map_eq_of_forall₂ hf h]

theorem elim_eq_of_rel {R : α → α → Prop} {f : α → List β} {x y : Option α}
    (hf : ∀ a b, R a b → f b = f a) (h : Option.Rel R x y) : y.elim [] f = x.elim [] f := by
  cases h with
  | none => rfl
  | some h => exact hf _ _ h

theorem forall₂_filterMap {f : α → Option β} {xs : List α} (h : ∀ x ∈ xs, ∃ y, f x = some y) :
    List.Forall₂ (fun y x => f x = some y) (xs.filterMap f) xs := by
  induction xs with
  | nil => exact .nil
  | cons x xs ih =>
    obtain ⟨y, hY⟩ := h x List.mem_cons_self
    rw [List.filterMap_cons_some hY]
    exact .cons hY (ih fun x' hX' => h x' (List.mem_cons_of_mem x hX'))

/-- Lists matched one to one by a relation hold matching items equally often. -/
theorem count_eq_of_forall₂ [DecidableEq α] [DecidableEq β] {R : α → β → Prop}
    (hR : ∀ {x y x' y'}, R x y → R x' y' → (x = x' ↔ y = y')) {xs : List α} {ys : List β}
    (h : List.Forall₂ R xs ys) {x : α} {y : β} (hxy : R x y) : xs.count x = ys.count y := by
  induction h with
  | nil => rfl
  | cons hHead _ ih =>
    rw [List.count_cons, List.count_cons, ih]
    simp only [beq_iff_eq, hR hHead hxy]

end ClassRom.Traversal
