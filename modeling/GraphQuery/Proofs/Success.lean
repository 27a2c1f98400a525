import GraphQuery.Keyed
import Mathlib.Data.List.Forall2
import Mathlib.Data.List.Nodup

/-!
# Computations that can fail

What the success or the failure of a computation says of its steps, and what related lists have in
common.
-/

namespace GraphQuery

variable {ε α β : Type}

theorem bind_eq_ok_iff {x : Except ε α} {next : α → Except ε β} {b : β} :
    (x >>= next) = .ok b ↔ ∃ a, x = .ok a ∧ next a = .ok b := by
  cases x with
  | error e => simp [bind, Except.bind]
  | ok a => simp [bind, Except.bind]

theorem check_bind_eq_ok_iff {check : Except ε Unit} {next : Unit → Except ε β} {b : β} :
    (check >>= next) = .ok b ↔ check = .ok () ∧ next () = .ok b := by
  cases check with
  | error e => simp [bind, Except.bind]
  | ok u => simp [bind, Except.bind]

/-- What follows a computation matters on its results only. -/
theorem bind_congr_of_ok {x : Except ε α} {next next' : α → Except ε β}
    (h : ∀ a, x = .ok a → next a = next' a) : (x >>= next) = (x >>= next') := by
  cases x with
  | error e => rfl
  | ok a => exact h a rfl

theorem map_eq_ok_iff {f : α → β} {x : Except ε α} {b : β} :
    f <$> x = .ok b ↔ ∃ a, x = .ok a ∧ f a = b := by
  cases x with
  | error e => simp [Functor.map, Except.map]
  | ok a => simp [Functor.map, Except.map]

theorem pure_eq_ok_iff {a b : α} : (pure a : Except ε α) = .ok b ↔ a = b := by
  simp [pure, Except.pure]

theorem mapError_eq_ok_iff {γ : Type} {f : ε → γ} {x : Except ε α} {a : α} :
    x.mapError f = .ok a ↔ x = .ok a := by
  cases x <;> simp [Except.mapError]

theorem mapError_eq_error_iff {γ : Type} {f : ε → γ} {x : Except ε α} {e : γ} :
    x.mapError f = .error e ↔ ∃ source, x = .error source ∧ f source = e := by
  cases x <;> simp [Except.mapError]

theorem exists_of_toBool {x : Except ε α} (h : x.toBool = true) : ∃ a, x = .ok a := by
  cases x with
  | error e => cases h
  | ok a => exact ⟨a, rfl⟩

theorem forM_eq_ok_iff {check : α → Except ε Unit} {items : List α} :
    forM items check = .ok () ↔ ∀ item ∈ items, check item = .ok () := by
  induction items with
  | nil => simp [pure_eq_ok_iff]
  | cons item items ih =>
    rw [List.forM_cons, bind_eq_ok_iff, List.forall_mem_cons, ih]
    exact ⟨fun ⟨(), hitem, hitems⟩ => ⟨hitem, hitems⟩, fun h => ⟨(), h⟩⟩

theorem mapM_eq_ok_iff {f : α → Except ε β} {items : List α} {results : List β} :
    items.mapM f = .ok results ↔
      List.Forall₂ (fun item result => f item = .ok result) items results := by
  induction items generalizing results with
  | nil => rw [List.mapM_nil, pure_eq_ok_iff, List.forall₂_nil_left_iff, eq_comm]
  | cons item items ih =>
    simp only [List.mapM_cons, bind_eq_ok_iff, ih, pure_eq_ok_iff]
    constructor
    · rintro ⟨result, hresult, rest, hrest, rfl⟩
      exact .cons hresult hrest
    · rintro (_ | ⟨hresult, hrest⟩)
      exact ⟨_, hresult, _, hrest, rfl⟩

theorem exists_mapM_eq_ok_iff {f : α → Except ε β} {p : β → Prop} {items : List α} :
    (∃ results, items.mapM f = .ok results ∧ ∀ result ∈ results, p result) ↔
      ∀ item ∈ items, ∃ result, f item = .ok result ∧ p result := by
  induction items with
  | nil => simp [pure_eq_ok_iff]
  | cons item items ih =>
    rw [List.forall_mem_cons, ← ih]
    simp only [mapM_eq_ok_iff]
    constructor
    · rintro ⟨_, _ | ⟨hresult, hrest⟩, hall⟩
      rw [List.forall_mem_cons] at hall
      exact ⟨⟨_, hresult, hall.1⟩, _, hrest, hall.2⟩
    · rintro ⟨⟨result, hresult, hp⟩, results, hrest, hall⟩
      exact ⟨result :: results, .cons hresult hrest, List.forall_mem_cons.2 ⟨hp, hall⟩⟩

theorem bind_eq_error_iff {x : Except ε α} {next : α → Except ε β} {e : ε} :
    (x >>= next) = .error e ↔ x = .error e ∨ ∃ a, x = .ok a ∧ next a = .error e := by
  cases x with
  | error other => simp [bind, Except.bind]
  | ok a => simp [bind, Except.bind]

theorem map_eq_error_iff {f : α → β} {x : Except ε α} {e : ε} :
    f <$> x = .error e ↔ x = .error e := by
  cases x with
  | error other => simp [Functor.map, Except.map]
  | ok a => simp [Functor.map, Except.map]

theorem exists_of_mapM_eq_error {f : α → Except ε β} {items : List α} {e : ε}
    (h : items.mapM f = .error e) : ∃ item ∈ items, f item = .error e := by
  induction items with
  | nil => cases h
  | cons item items ih =>
    simp only [List.mapM_cons, bind_eq_error_iff] at h
    rcases h with h | ⟨_, -, h | ⟨_, -, h⟩⟩
    · exact ⟨item, List.mem_cons_self, h⟩
    · obtain ⟨other, hmem, hother⟩ := ih h
      exact ⟨other, List.mem_cons_of_mem _ hmem, hother⟩
    · cases h

/-- The computation fails with errors of one kind only. -/
def FailsOnly (p : ε → Prop) (x : Except ε α) : Prop := ∀ e, x = .error e → p e

namespace FailsOnly

variable {p : ε → Prop}

theorem ok (a : α) : FailsOnly p (.ok a) := nofun

theorem error {e : ε} (h : p e) : FailsOnly p (.error e : Except ε α) := by
  intro other hother
  exact Except.error.inj hother ▸ h

theorem bind_of_ok {x : Except ε α} {next : α → Except ε β} (hx : FailsOnly p x)
    (hnext : ∀ a, x = .ok a → FailsOnly p (next a)) : FailsOnly p (x >>= next) := by
  intro e h
  rcases bind_eq_error_iff.1 h with h | ⟨a, ha, h⟩
  · exact hx e h
  · exact hnext a ha e h

theorem bind {x : Except ε α} {next : α → Except ε β} (hx : FailsOnly p x)
    (hnext : ∀ a, FailsOnly p (next a)) : FailsOnly p (x >>= next) :=
  hx.bind_of_ok fun a _ => hnext a

theorem map {x : Except ε α} (hx : FailsOnly p x) (f : α → β) : FailsOnly p (f <$> x) :=
  fun e h => hx e (map_eq_error_iff.1 h)

theorem mapM {f : α → Except ε β} {items : List α} (h : ∀ item ∈ items, FailsOnly p (f item)) :
    FailsOnly p (items.mapM f) := by
  intro e he
  obtain ⟨item, hmem, hitem⟩ := exists_of_mapM_eq_error he
  exact h item hmem e hitem

theorem foldlM {step : β → α → Except ε β} {items : List α}
    (h : ∀ state, ∀ item ∈ items, FailsOnly p (step state item)) (start : β) :
    FailsOnly p (items.foldlM step start) := by
  induction items generalizing start with
  | nil => exact ok start
  | cons item items ih =>
    rw [List.foldlM_cons]
    refine (h start item List.mem_cons_self).bind fun state => ih (fun state other hmem => ?_) state
    exact h state other (List.mem_cons_of_mem _ hmem)

theorem forM {check : α → Except ε Unit} {items : List α}
    (h : ∀ item ∈ items, FailsOnly p (check item)) : FailsOnly p (items.forM check) := by
  induction items with
  | nil => exact ok ()
  | cons item items ih =>
    rw [List.forall_mem_cons] at h
    exact h.1.bind fun _ => ih h.2

end FailsOnly

theorem mapM_eq_error {f : α → Except ε β} {before after : List α} {item : α} {e : ε}
    (hbefore : ∀ earlier ∈ before, ∃ result, f earlier = .ok result) (h : f item = .error e) :
    (before ++ item :: after).mapM f = .error e := by
  induction before with
  | nil =>
    rw [List.nil_append, List.mapM_cons, h]
    rfl
  | cons earlier rest ih =>
    rw [List.forall_mem_cons] at hbefore
    obtain ⟨⟨result, hresult⟩, hrest⟩ := hbefore
    rw [List.cons_append, List.mapM_cons, hresult, ih hrest]
    rfl

/-- If all items have results, then another item in the place of one of them decides alone whether
there still are results. -/
theorem mapM_modify {γ : Type} {f : α → Except ε β} {items : List α} {results : List β}
    (h : items.mapM f = .ok results) {change : α → α} {changed : Except ε γ}
    {change' : γ → β → β} {index : Nat} {item : α} (hitem : items[index]? = some item)
    (hchange : ∀ result, f item = .ok result →
      f (change item) = (fun c => change' c result) <$> changed) :
    (items.modify index change).mapM f =
      (fun c => results.modify index (change' c)) <$> changed := by
  induction items generalizing index results with
  | nil => cases hitem
  | cons first rest ih =>
    simp only [List.mapM_cons, bind_eq_ok_iff, pure_eq_ok_iff] at h
    obtain ⟨result, hresult, others, hothers, rfl⟩ := h
    cases index with
    | zero =>
      obtain rfl := Option.some.inj hitem
      rw [List.modify_zero_cons, List.mapM_cons, hchange result hresult, hothers]
      cases changed <;> rfl
    | succ index =>
      rw [List.modify_succ_cons, List.mapM_cons, hresult, ih hothers hitem]
      cases changed <;> rfl

theorem foldlM_congr {step step' : β → α → Except ε β} {items : List α}
    (h : ∀ item ∈ items, ∀ state, step' state item = step state item) (start : β) :
    items.foldlM step' start = items.foldlM step start := by
  induction items generalizing start with
  | nil => rfl
  | cons item items ih =>
    rw [List.forall_mem_cons] at h
    rw [List.foldlM_cons, List.foldlM_cons, h.1]
    exact bind_congr fun state => ih h.2 state

/-- Steps that commute with a change of the state and of the items lead to the changed state. -/
theorem foldlM_semiconj {γ δ : Type} {step : β → α → Except ε β} {step' : γ → δ → Except ε γ}
    {f : β → γ} {g : α → δ} (h : ∀ state item, step' (f state) (g item) = f <$> step state item)
    (items : List α) (start : β) :
    (items.map g).foldlM step' (f start) = f <$> items.foldlM step start := by
  induction items generalizing start with
  | nil => rfl
  | cons item items ih =>
    rw [List.map_cons, List.foldlM_cons, List.foldlM_cons, h, map_bind, bind_map_left]
    exact bind_congr fun state => ih state

theorem exists_foldlM_eq_ok {step : β → α → Except ε β} {items : List α}
    (h : ∀ item ∈ items, ∀ state, ∃ next, step state item = .ok next) (start : β) :
    ∃ final, items.foldlM step start = .ok final := by
  induction items generalizing start with
  | nil => exact ⟨start, rfl⟩
  | cons item items ih =>
    rw [List.forall_mem_cons] at h
    obtain ⟨next, hnext⟩ := h.1 start
    rw [List.foldlM_cons, hnext]
    exact ih h.2 next

theorem foldlM_invariant {step : β → α → Except ε β} {items : List α} {p : β → Prop}
    (h : ∀ item ∈ items, ∀ state next, step state item = .ok next → p state → p next) {start : β}
    {final : β} (hfinal : items.foldlM step start = .ok final) (hstart : p start) : p final := by
  induction items generalizing start with
  | nil => exact pure_eq_ok_iff.1 hfinal ▸ hstart
  | cons item items ih =>
    rw [List.forall_mem_cons] at h
    rw [List.foldlM_cons, bind_eq_ok_iff] at hfinal
    obtain ⟨next, hnext, hrest⟩ := hfinal
    exact ih h.2 hrest (h.1 start next hnext hstart)

theorem exists_getElem?_of_length_eq {as : List α} {bs : List β} (h : as.length = bs.length)
    {i : Nat} {a : α} (ha : as[i]? = some a) : ∃ b, bs[i]? = some b := by
  have hi : i < bs.length := h ▸ (List.getElem?_eq_some_iff.1 ha).1
  exact ⟨bs[i], List.getElem?_eq_getElem hi⟩

theorem find?_key_eq_some_iff {key : α → String} {items : List α} (hnodup : (items.map key).Nodup)
    {name : String} {item : α} :
    items.find? (fun other => key other == name) = some item ↔ item ∈ items ∧ key item = name := by
  induction items with
  | nil => simp
  | cons first rest ih =>
    obtain ⟨hnew, hrest⟩ := List.nodup_cons.1 hnodup
    by_cases hfirst : key first = name
    · have hother : ∀ other ∈ rest, key other ≠ name := by
        intro other hmem heq
        exact hnew (hfirst.trans heq.symm ▸ List.mem_map_of_mem hmem)
      simp only [List.find?_cons, hfirst, beq_self_eq_true, Option.some.injEq, List.mem_cons]
      constructor
      · intro heq
        exact ⟨.inl heq.symm, heq ▸ hfirst⟩
      · intro h
        exact h.1.elim Eq.symm fun hmem => absurd h.2 (hother item hmem)
    · rw [List.find?_cons, beq_false_of_ne hfirst, ih hrest, List.mem_cons]
      constructor
      · intro h
        exact ⟨.inr h.1, h.2⟩
      · intro h
        exact ⟨h.1.resolve_left fun heq => hfirst (heq ▸ h.2), h.2⟩

theorem key_ne_of_nodup {κ : Type} {key : α → κ} {before after : List α} {item : α}
    (hnodup : ((before ++ item :: after).map key).Nodup) {other : α}
    (hother : other ∈ before ++ after) : key other ≠ key item := by
  rw [List.map_append, List.map_cons, List.nodup_middle, List.nodup_cons, ← List.map_append]
    at hnodup
  intro heq
  exact hnodup.1 (heq ▸ List.mem_map_of_mem hother)

/-- Computations that fail alike or have related values. -/
inductive Related (R : α → β → Prop) : Except ε α → Except ε β → Prop
  | ok {a b} (h : R a b) : Related R (.ok a) (.ok b)
  | error {e} : Related R (.error e) (.error e)

section Related

variable {γ δ : Type} {R : α → β → Prop} {S : γ → δ → Prop}

theorem Related.eq {x y : Except ε α} (h : Related Eq x y) : x = y := by
  cases h with
  | ok h => rw [h]
  | error => rfl

theorem Related.of_eq {x y : Except ε α} (h : x = y) : Related Eq x y := by
  subst h
  cases x with
  | ok a => exact .ok rfl
  | error e => exact .error

theorem Related.of_eq_ok {x : Except ε α} {y : Except ε β} {a : α} {b : β} (hx : x = .ok a)
    (hy : y = .ok b) (h : R a b) : Related R x y := by
  subst hx hy
  exact .ok h

theorem Related.exists_ok {a : α} {y : Except ε β} (h : Related R (.ok a) y) :
    ∃ b, y = .ok b ∧ R a b := by
  cases h with
  | ok hab => exact ⟨_, rfl, hab⟩

theorem Related.eq_error {e : ε} {y : Except ε β} (h : Related R (.error e) y) : y = .error e := by
  cases h
  rfl

theorem Related.bind {x : Except ε α} {y : Except ε β} (h : Related R x y)
    {next : α → Except ε γ} {next' : β → Except ε δ}
    (hnext : ∀ a b, R a b → Related S (next a) (next' b)) :
    Related S (x >>= next) (y >>= next') := by
  cases h with
  | ok h => exact hnext _ _ h
  | error => exact .error

theorem Related.map_eq {x : Except ε α} {y : Except ε β} (h : Related R x y) {f : α → γ}
    {g : β → γ} (hfg : ∀ a b, R a b → f a = g b) : f <$> x = g <$> y := by
  cases h with
  | ok h => exact congrArg Except.ok (hfg _ _ h)
  | error => rfl

theorem related_mapM {f : γ → Except ε α} {g : γ → Except ε β} {items : List γ}
    (h : ∀ item ∈ items, Related R (f item) (g item)) :
    Related (List.Forall₂ R) (items.mapM f) (items.mapM g) := by
  induction items with
  | nil => exact .ok .nil
  | cons item items ih =>
    rw [List.forall_mem_cons] at h
    rw [List.mapM_cons, List.mapM_cons]
    refine h.1.bind fun a b hab => ?_
    exact (ih h.2).bind fun as bs hrest => .ok (.cons hab hrest)

theorem related_forM {f g : γ → Except ε Unit} {items : List γ}
    (h : ∀ item ∈ items, Related Eq (f item) (g item)) :
    Related Eq (items.forM f) (items.forM g) := by
  induction items with
  | nil => exact .ok rfl
  | cons item items ih =>
    rw [List.forall_mem_cons] at h
    exact h.1.bind fun _ _ _ => ih h.2

end Related

theorem forall₂_iff_getElem? {R : α → β → Prop} {as : List α} {bs : List β} :
    List.Forall₂ R as bs ↔ as.length = bs.length ∧
      ∀ (i : Nat) a b, as[i]? = some a → bs[i]? = some b → R a b := by
  rw [List.forall₂_iff_get]
  refine and_congr_right fun _ => ⟨fun h i a b ha hb => ?_, fun h i hi hi' => ?_⟩
  · obtain ⟨hi, rfl⟩ := List.getElem?_eq_some_iff.1 ha
    obtain ⟨hi', rfl⟩ := List.getElem?_eq_some_iff.1 hb
    exact h i hi hi'
  · exact h i _ _ (List.getElem?_eq_getElem hi) (List.getElem?_eq_getElem hi')

theorem exists_of_mem_right {R : α → β → Prop} {as : List α} {bs : List β}
    (h : List.Forall₂ R as bs) {b : β} (hb : b ∈ bs) : ∃ a ∈ as, R a b := by
  induction h with
  | nil => cases hb
  | cons hab _ ih =>
    rcases List.mem_cons.1 hb with rfl | hb
    · exact ⟨_, List.mem_cons_self, hab⟩
    · obtain ⟨a, ha, hab⟩ := ih hb
      exact ⟨a, List.mem_cons_of_mem _ ha, hab⟩

theorem exists_of_mem_left {R : α → β → Prop} {as : List α} {bs : List β}
    (h : List.Forall₂ R as bs) {a : α} (ha : a ∈ as) : ∃ b ∈ bs, R a b :=
  exists_of_mem_right h.flip ha

theorem exists_split_of_forall₂ {R : α → β → Prop} {before after : List α} {a : α} {bs : List β}
    (h : List.Forall₂ R (before ++ a :: after) bs) :
    ∃ before' b after', bs = before' ++ b :: after' ∧ List.Forall₂ R before before' ∧ R a b ∧
      List.Forall₂ R after after' := by
  induction before generalizing bs with
  | nil =>
    obtain ⟨b, after', hab, hafter, rfl⟩ := List.forall₂_cons_left_iff.1 h
    exact ⟨[], b, after', rfl, .nil, hab, hafter⟩
  | cons first before ih =>
    obtain ⟨first', rest, hfirst, hrest, rfl⟩ := List.forall₂_cons_left_iff.1 h
    obtain ⟨before', b, after', rfl, hbefore, hab, hafter⟩ := ih hrest
    exact ⟨first' :: before', b, after', rfl, .cons hfirst hbefore, hab, hafter⟩

theorem map_eq_of_forall₂ {γ : Type} {R : α → β → Prop} {as : List α} {bs : List β}
    (h : List.Forall₂ R as bs) {f : α → γ} {g : β → γ} (hfg : ∀ a b, R a b → g b = f a) :
    bs.map g = as.map f := by
  induction h with
  | nil => rfl
  | cons hab _ ih => rw [List.map_cons, List.map_cons, hfg _ _ hab, ih]

theorem rel_find? {R : α → β → Prop} {p : α → Bool} {q : β → Bool} {as : List α} {bs : List β}
    (h : List.Forall₂ R as bs) (hpq : ∀ a b, R a b → p a = q b) :
    Option.Rel R (as.find? p) (bs.find? q) := by
  induction h with
  | nil => exact .none
  | @cons a b _ _ hab _ ih =>
    rw [List.find?_cons, List.find?_cons, hpq a b hab]
    cases q b with
    | true => exact .some hab
    | false => exact ih

theorem eq_some_iff_of_rel {R : α → β → Prop} {a : Option α} {b : Option β} {x : α} {y : β}
    (h : Option.Rel R a b) (hR : ∀ a b, R a b → (b = y ↔ a = x)) : b = some y ↔ a = some x := by
  cases h with
  | none => simp
  | some hab => simpa using hR _ _ hab

theorem exists_of_rel_some {R : α → β → Prop} {a : α} {found : Option β}
    (h : Option.Rel R (some a) found) : ∃ b, found = some b ∧ R a b := by
  cases h with
  | some hab => exact ⟨_, rfl, hab⟩

end GraphQuery
