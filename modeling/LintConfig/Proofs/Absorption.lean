import Mathlib.Data.List.Basic
import Mathlib.Order.Defs.Unbundled

/-!
# Absorption

Values are laid onto a state one after the other.  Laying a value on is absorbed if it makes no
difference where the same value is laid on once more at the end (`Absorbed`).  One value in between
is enough to ask for: then any number may stand in between (`Absorbs.lay_foldl_lay`), and of a list
with repetitions only the last of each has to be kept (`Absorbs.foldl_keepLast`).
-/

namespace LintConfig

variable {σ δ α κ : Type}

/-- A value that is laid on twice might as well be laid on the second time only, at once or with
another value in between. -/
structure Absorbed (same : σ → σ → Prop) (lay : σ → δ → σ) (P : δ → Prop) (d : δ) : Prop where
  again : ∀ s, same (lay (lay s d) d) (lay s d)
  skip : ∀ s x, P x → same (lay (lay (lay s d) x) d) (lay (lay s x) d)

/-- Laying values of a kind on keeps states that are taken for the same, and is absorbed. -/
structure Absorbs (same : σ → σ → Prop) (lay : σ → δ → σ) (P : δ → Prop) : Prop where
  equivalence : Equivalence same
  congr : ∀ {s s'} d, same s s' → same (lay s d) (lay s' d)
  absorbed : ∀ {d}, P d → Absorbed same lay P d

/-- Of the elements with one key the last one only. -/
def keepLast [DecidableEq κ] (key : α → κ) : List α → List α
  | [] => []
  | a :: as => if key a ∈ as.map key then keepLast key as else a :: keepLast key as

/-- Where elements with one key are one, no element is lost. -/
theorem mem_keepLast_iff [DecidableEq κ] {key : α → κ} {as : List α}
    (has : ∀ a ∈ as, ∀ b ∈ as, key a = key b → a = b) {x : α} : x ∈ keepLast key as ↔ x ∈ as := by
  induction as with
  | nil => rfl
  | cons a as ih =>
    have ih := ih fun b hb c hc => has b (List.mem_cons_of_mem a hb) c (List.mem_cons_of_mem a hc)
    rw [keepLast]
    split_ifs with hmem
    · obtain ⟨b, hb, hkey⟩ := List.mem_map.1 hmem
      obtain rfl : b = a := has b (List.mem_cons_of_mem a hb) a List.mem_cons_self hkey
      rw [ih, List.mem_cons, or_iff_right_of_imp]
      rintro rfl
      exact hb
    · rw [List.mem_cons, List.mem_cons, ih]

namespace Absorbs

variable {same : σ → σ → Prop} {lay : σ → δ → σ} {P : δ → Prop}

theorem foldl_congr (h : Absorbs same lay P) (ds : List δ) {s s' : σ} (hs : same s s') :
    same (ds.foldl lay s) (ds.foldl lay s') := by
  induction ds generalizing s s' with
  | nil => exact hs
  | cons d ds ih => exact ih (h.congr d hs)

/-- Any number of values may stand in between. -/
theorem lay_foldl_lay (h : Absorbs same lay P) {d : δ} (hd : P d) {xs : List δ}
    (hxs : ∀ x ∈ xs, P x) (s : σ) :
    same (lay (xs.foldl lay (lay s d)) d) (lay (xs.foldl lay s) d) := by
  induction xs generalizing s with
  | nil => exact (h.absorbed hd).again s
  | cons x xs ih =>
    have hrest := ih fun y hy => hxs y (List.mem_cons_of_mem x hy)
    have hskip := (h.absorbed hd).skip s x (hxs x List.mem_cons_self)
    -- `d` is first laid on once more behind `x`, and absorbed from there
    have hinsert := h.equivalence.symm (hrest (lay (lay s d) x))
    have hdrop := h.congr d (h.foldl_congr xs hskip)
    exact h.equivalence.trans hinsert (h.equivalence.trans hdrop (hrest (lay s x)))

theorem foldl_lay (h : Absorbs same lay P) {ys : List δ} (hys : ∀ y ∈ ys, P y) {d : δ}
    (hd : d ∈ ys) (s : σ) : same (ys.foldl lay (lay s d)) (ys.foldl lay s) := by
  obtain ⟨xs, zs, rfl⟩ := List.append_of_mem hd
  have hxs : ∀ x ∈ xs, P x := fun x hx => hys x (List.mem_append_left _ hx)
  rw [List.foldl_append, List.foldl_append, List.foldl_cons, List.foldl_cons]
  exact h.foldl_congr zs (h.lay_foldl_lay (hys d hd) hxs s)

/-- Values that are all laid on later might as well be left out. -/
theorem foldl_append_of_subset (h : Absorbs same lay P) {ds ys : List δ} (hds : ds ⊆ ys)
    (hys : ∀ y ∈ ys, P y) (s : σ) : same ((ds ++ ys).foldl lay s) (ys.foldl lay s) := by
  induction ds generalizing s with
  | nil => exact h.equivalence.refl _
  | cons d ds ih =>
    obtain ⟨hd, hds⟩ := List.cons_subset.1 hds
    have hrest := ih hds (lay s d)
    exact h.equivalence.trans hrest (h.foldl_lay hys hd s)

/-- Where elements with one key are one, all but the last of each key might as well be left out. -/
theorem foldl_keepLast [DecidableEq κ] (h : Absorbs same lay P) {key : α → κ} (g : α → List δ)
    {as : List α} (has : ∀ a ∈ as, ∀ b ∈ as, key a = key b → a = b)
    (hg : ∀ a ∈ as, ∀ d ∈ g a, P d) (s : σ) :
    same ((as.flatMap g).foldl lay s) (((keepLast key as).flatMap g).foldl lay s) := by
  induction as generalizing s with
  | nil => exact h.equivalence.refl s
  | cons a as ih =>
    have has' : ∀ b ∈ as, ∀ c ∈ as, key b = key c → b = c := fun b hb c hc =>
      has b (List.mem_cons_of_mem a hb) c (List.mem_cons_of_mem a hc)
    have hg' : ∀ b ∈ as, ∀ d ∈ g b, P d := fun b hb => hg b (List.mem_cons_of_mem a hb)
    rw [List.flatMap_cons, keepLast]
    split_ifs with hmem
    · obtain ⟨b, hb, hkey⟩ := List.mem_map.1 hmem
      obtain rfl : b = a := has b (List.mem_cons_of_mem a hb) a List.mem_cons_self hkey
      have hsubset : g b ⊆ as.flatMap g := fun d hd => List.mem_flatMap.2 ⟨b, hb, hd⟩
      have hys : ∀ y ∈ as.flatMap g, P y := by
        intro y hy
        obtain ⟨c, hc, hy⟩ := List.mem_flatMap.1 hy
        exact hg' c hc y hy
      exact h.equivalence.trans (h.foldl_append_of_subset hsubset hys s) (ih has' hg' s)
    · rw [List.flatMap_cons, List.foldl_append, List.foldl_append]
      exact ih has' hg' ((g a).foldl lay s)

end Absorbs

end LintConfig
