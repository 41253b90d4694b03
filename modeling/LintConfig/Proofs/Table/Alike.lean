import LintConfig.Proofs.Table
import Mathlib.Data.List.Nodup

/-!
# Tables up to the order of keys

`Table.values` lists what stands under one key.  Two tables are alike if they have the same under
each key, as far as a function on values shows it, in whatever order their keys stand.  Whatever is
put together key by key keeps tables alike (`Alike.foldl`).
-/

namespace LintConfig.Table

variable {α β γ : Type}

/-- The values under a key, in table order. -/
def values (t : Table α) (k : String) : List α := (t.filter fun e => e.1 = k).map Prod.snd

theorem values_nil (k : String) : values ([] : Table α) k = [] := rfl

theorem values_cons (e : String × α) (t : Table α) (k : String) :
    values (e :: t) k = if e.1 = k then e.2 :: values t k else values t k := by
  unfold values
  by_cases h : e.1 = k <;> simp [h]

theorem values_append (t u : Table α) (k : String) :
    values (t ++ u) k = values t k ++ values u k := by
  simp [values]

theorem values_map (f : α → β) (t : Table α) (k : String) :
    values (t.map fun e => (e.1, f e.2)) k = (values t k).map f := by
  induction t with
  | nil => rfl
  | cons e t ih => by_cases h : e.1 = k <;> simp [values_cons, h, ih]

theorem head?_values (t : Table α) (k : String) : (values t k).head? = get? t k := by
  induction t with
  | nil => rfl
  | cons e t ih => by_cases h : e.1 = k <;> simp [values_cons, get?, h, ih]

theorem length_values (t : Table α) (k : String) : (values t k).length = (keys t).count k := by
  induction t with
  | nil => rfl
  | cons e t ih =>
    rw [values_cons, keys_cons, List.count_cons]
    by_cases h : e.1 = k <;> simp [h, ih]

theorem mem_of_mem_values {t : Table α} {k : String} {v : α} (h : v ∈ values t k) : (k, v) ∈ t := by
  obtain ⟨⟨k', w⟩, hmem, rfl⟩ := List.mem_map.1 h
  rw [List.mem_filter, decide_eq_true_eq] at hmem
  obtain ⟨hmem, rfl⟩ := hmem
  exact hmem

theorem values_eq_nil_or_singleton {t : Table α} (h : (keys t).Nodup) (k : String) :
    values t k = [] ∨ ∃ v, (k, v) ∈ t ∧ values t k = [v] := by
  have hle : (values t k).length ≤ 1 := by
    rw [length_values]
    exact List.nodup_iff_count_le_one.1 h k
  cases hvs : values t k with
  | nil => exact .inl rfl
  | cons v vs =>
    rw [hvs, List.length_cons] at hle
    obtain rfl : vs = [] := List.length_eq_zero_iff.1 (by omega)
    exact .inr ⟨v, mem_of_mem_values (by simp [hvs]), rfl⟩

/-- A new value takes the place of the first one. -/
theorem values_put (t : Table α) (k : String) (v : α) (k' : String) :
    values (put t k v) k' = if k = k' then v :: (values t k).tail else values t k' := by
  induction t with
  | nil => by_cases h : k = k' <;> simp [put, values_cons, values_nil, h]
  | cons e t ih =>
    obtain ⟨j, w⟩ := e
    by_cases hj : j = k
    · subst hj
      by_cases h : j = k' <;> simp [put, values_cons, h]
    · have hput : put ((j, w) :: t) k v = (j, w) :: put t k v := by simp [put, hj]
      rw [hput, values_cons, values_cons, ih]
      by_cases h : k = k'
      · subst h
        simp [hj]
      · simp [values_cons, h]

theorem values_erase (t : Table α) (k k' : String) :
    values (erase t k) k' = if k = k' then [] else values t k' := by
  induction t with
  | nil => simp [erase, values_nil]
  | cons e t ih =>
    have hcons : erase (e :: t) k = if e.1 = k then erase t k else e :: erase t k := by
      by_cases h : e.1 = k <;> simp [erase, h]
    rw [hcons, values_cons]
    by_cases h : e.1 = k <;> by_cases h' : k = k' <;> by_cases hk : e.1 = k' <;>
      simp_all [values_cons]

/-- What is put together entry by entry, each touching its own key only, is put together under
each key. -/
theorem values_foldl {step : Table α → String → α → Table α} {g : String → List α → α → List α}
    (hstep : ∀ t k v k', values (step t k v) k' =
      if k = k' then g k (values t k) v else values t k') (t u : Table α) (k : String) :
    values (u.foldl (fun acc e => step acc e.1 e.2) t) k =
      (values u k).foldl (g k) (values t k) := by
  induction u generalizing t with
  | nil => rfl
  | cons e u ih =>
    rw [List.foldl_cons, ih, hstep, values_cons]
    by_cases h : e.1 = k
    · simp [h]
    · simp [h]

theorem Matched.values {R : String → α → β → Prop} {t : Table α} {u : Table β}
    (h : Matched R t u) (k : String) : List.Forall₂ (R k) (values t k) (values u k) := by
  induction h with
  | nil => exact .nil
  | cons h _ ih =>
    rw [values_cons, values_cons, ← h.1]
    split_ifs with hk
    · exact .cons (hk ▸ h.2) ih
    · exact ih

/-- Two tables have the same under each key, as far as `text` shows it. -/
def Alike (text : α → β) (t u : Table α) : Prop :=
  ∀ k, (values t k).map text = (values u k).map text

namespace Alike

variable {text : α → β} {t t' u u' : Table α}

theorem refl (text : α → β) (t : Table α) : Alike text t t := fun _ => rfl

/-- The order of keys does not show. -/
theorem of_perm (text : α → β) (h : t.Perm u) (hnodup : (keys t).Nodup) : Alike text t u := by
  intro k
  have hvalues : (values t k).Perm (values u k) := (h.filter _).map _
  obtain hnil | ⟨v, -, hone⟩ := values_eq_nil_or_singleton hnodup k
  · rw [hnil] at hvalues ⊢
    rw [List.nil_perm.1 hvalues]
  · rw [hone] at hvalues ⊢
    rw [List.singleton_perm.1 hvalues]

theorem mapValues_iff {f : γ → α} {t u : Table γ} :
    Alike text (mapValues f t) (mapValues f u) ↔ Alike (text ∘ f) t u := by
  refine forall_congr' fun k => ?_
  rw [mapValues, mapValues, values_map, values_map, List.map_map, List.map_map]

theorem get?_eq (h : Alike text t u) (k : String) : (get? t k).map text = (get? u k).map text := by
  rw [← head?_values, ← head?_values, ← List.head?_map, ← List.head?_map, h k]

theorem get?_inj (htext : Function.Injective text) (h : Alike text t u) (k : String) :
    get? t k = get? u k :=
  Option.map_injective htext (h.get?_eq k)

/-- Lists that look alike are put together alike. -/
theorem foldl_map_eq {g : List α → α → List α} {vs vs' : List α} (hvs : vs.map text = vs'.map text)
    (hg : ∀ v ∈ vs, ∀ v' ws ws', text v = text v' → ws.map text = ws'.map text →
      (g ws v).map text = (g ws' v').map text) :
    ∀ ws ws', ws.map text = ws'.map text → (vs.foldl g ws).map text = (vs'.foldl g ws').map text := by
  induction vs generalizing vs' with
  | nil =>
    obtain rfl : [] = vs' := by simpa [eq_comm] using hvs
    exact fun ws ws' h => h
  | cons v vs ih =>
    cases vs' with
    | nil => simp at hvs
    | cons v' vs' =>
      rw [List.map_cons, List.map_cons, List.cons.injEq] at hvs
      intro ws ws' hws
      refine ih hvs.2 (fun w hw => hg w (by simp [hw])) _ _ ?_
      exact hg v (by simp) v' ws ws' hvs.1 hws

/-- Alike tables that are put together entry by entry stay alike. -/
theorem foldl {step : Table α → String → α → Table α} {g : String → List α → α → List α}
    (hstep : ∀ t k v k', values (step t k v) k' =
      if k = k' then g k (values t k) v else values t k')
    (hg : ∀ k, ∀ v ∈ values u k, ∀ v' ws ws', text v = text v' → ws.map text = ws'.map text →
      (g k ws v).map text = (g k ws' v').map text)
    (h : Alike text t t') (h' : Alike text u u') :
    Alike text (u.foldl (fun acc e => step acc e.1 e.2) t)
      (u'.foldl (fun acc e => step acc e.1 e.2) t') := by
  intro k
  rw [values_foldl hstep, values_foldl hstep]
  exact foldl_map_eq (h' k) (hg k) _ _ (h k)

theorem overlay (h : Alike text t t') (h' : Alike text u u') :
    Alike text (overlay t u) (overlay t' u') := by
  refine foldl (g := fun _ ws v => v :: ws.tail) values_put ?_ h h'
  intro k v _ v' ws ws' hv hws
  rw [List.map_cons, List.map_cons, List.map_tail, List.map_tail, hv, hws]

end Alike

end LintConfig.Table
