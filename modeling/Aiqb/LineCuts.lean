import Mathlib.Data.List.Basic

set_option autoImplicit true

namespace LineCuts

/-- Cut a list into pieces, each as soon as it is full; the first one goes on from `buffer`. -/
def cut (full : List α → Bool) : List α → List α → List (List α)
  | buffer, [] => if buffer.isEmpty then [] else [buffer]
  | buffer, x :: rest =>
    if full (buffer ++ [x]) then (buffer ++ [x]) :: cut full [] rest
    else cut full (buffer ++ [x]) rest

variable {full : List α → Bool} {buffer xs ys : List α} {stop : α}

theorem cut_flatten (buffer xs : List α) : (cut full buffer xs).flatten = buffer ++ xs := by
  induction xs generalizing buffer with
  | nil =>
    rw [cut]
    split
    · next h => rw [List.isEmpty_iff.mp h]; rfl
    · rw [List.flatten_singleton, List.append_nil]
  | cons x xs ih =>
    rw [cut]
    split
    · rw [List.flatten_cons, ih, List.nil_append, List.append_assoc, List.singleton_append]
    · rw [ih, List.append_assoc, List.singleton_append]

theorem ne_nil_of_mem_cut (h : p ∈ cut full buffer xs) : p ≠ [] := by
  induction xs generalizing buffer with
  | nil =>
    rw [cut] at h
    split at h
    · cases h
    · next hne =>
      obtain rfl := List.mem_singleton.mp h
      exact fun hnil => hne (List.isEmpty_iff.mpr hnil)
  | cons x xs ih =>
    rw [cut] at h
    split at h
    · rcases List.mem_cons.mp h with rfl | h
      · exact List.append_ne_nil_of_right_ne_nil _ (List.cons_ne_nil _ _)
      · exact ih h
    · exact ih h

theorem cut_append_stop (hstop : ∀ s, full (s ++ [stop])) (buffer xs ys : List α) :
    cut full buffer (xs ++ stop :: ys) = cut full buffer (xs ++ [stop]) ++ cut full [] ys := by
  induction xs generalizing buffer with
  | nil =>
    rw [List.nil_append, List.nil_append, cut, if_pos (hstop buffer), cut, if_pos (hstop buffer),
      cut]
    rfl
  | cons x xs ih =>
    rw [List.cons_append, List.cons_append, cut, cut]
    split
    · rw [ih, List.cons_append]
    · exact ih _

theorem cut_whole (hne : buffer ++ xs ≠ [])
    (h : ∀ s, s <+: xs → s ≠ [] → s ≠ xs → ¬ full (buffer ++ s)) :
    cut full buffer xs = [buffer ++ xs] := by
  induction xs generalizing buffer with
  | nil =>
    rw [List.append_nil] at hne ⊢
    rw [cut, if_neg fun hnil => hne (List.isEmpty_iff.mp hnil)]
  | cons x xs ih =>
    rw [cut]
    cases xs with
    | nil =>
      split
      · rfl
      · rw [cut, if_neg (by simp)]
    | cons y ys =>
      have hx : ¬ full (buffer ++ [x]) := by
        apply h [x] _ (List.cons_ne_nil _ _) (by simp)
        rw [List.cons_prefix_cons]
        exact ⟨rfl, List.nil_prefix⟩
      rw [if_neg hx, ih]
      · rw [List.append_assoc, List.singleton_append]
      · simp
      · intro s hs hne' hne''
        rw [List.append_assoc, List.singleton_append]
        apply h (x :: s) (List.cons_prefix_cons.mpr ⟨rfl, hs⟩) (List.cons_ne_nil _ _)
        exact fun he => hne'' (List.cons.inj he).2

section Lines

variable [DecidableEq α]

def endsWith (stop : α) (s : List α) : Bool := s.getLast? = some stop

def lines (stop : α) (xs : List α) : List (List α) := cut (endsWith stop) [] xs

theorem endsWith_snoc (stop : α) (s : List α) : endsWith stop (s ++ [stop]) := by
  rw [endsWith, List.getLast?_concat, decide_eq_true_eq]

theorem endsWith_mem (h : endsWith stop s) : stop ∈ s :=
  List.mem_of_getLast? (of_decide_eq_true h)

theorem lines_cons (hxs : stop ∉ xs) (ys : List α) :
    lines stop (xs ++ stop :: ys) = (xs ++ [stop]) :: lines stop ys := by
  rw [lines, cut_append_stop (endsWith_snoc stop), cut_whole (by simp)]
  · rfl
  · intro s hs hne hne' hfull
    have hmem : stop ∈ s := endsWith_mem hfull
    obtain ⟨t, ht⟩ := hs
    have hlast : t ≠ [] := by
      rintro rfl
      rw [List.append_nil] at ht
      exact hne' ht
    obtain ⟨t', x, rfl⟩ := (List.eq_nil_or_concat' t).resolve_left hlast
    rw [← List.append_assoc] at ht
    have hs' : s ++ t' = xs := (List.append_inj' ht rfl).1
    exact hxs (hs' ▸ List.mem_append_left _ hmem)

theorem lines_last (hxs : stop ∉ xs) (hne : xs ≠ []) : lines stop xs = [xs] := by
  rw [lines, cut_whole (by simpa using hne)]
  · rfl
  · intro s hs _ _ hfull
    exact hxs (hs.subset (endsWith_mem hfull))

/-- Lists by their lines. -/
theorem lines_induction {c : α} {P : List α → Prop} (nil : P [])
    (last : ∀ xs, c ∉ xs → xs ≠ [] → P xs)
    (line : ∀ xs ys, c ∉ xs → P ys → P (xs ++ c :: ys)) (xs : List α) : P xs := by
  induction hn : xs.length using Nat.strongRecOn generalizing xs with
  | ind n ih =>
    by_cases hstop : c ∈ xs
    · obtain ⟨as, bs, rfl, has⟩ := List.eq_append_cons_of_mem hstop
      rw [List.length_append, List.length_cons] at hn
      exact line as bs has (ih bs.length (by omega) bs rfl)
    · by_cases hne : xs = []
      · exact hne ▸ nil
      · exact last xs hstop hne

theorem cut_lines (hstop : ∀ s, full (s ++ [stop])) (xs : List α) :
    cut full [] xs = (lines stop xs).flatMap (cut full []) := by
  induction xs using lines_induction (c := stop) with
  | nil => rfl
  | last xs hxs hne => rw [lines_last hxs hne, List.flatMap_singleton]
  | line xs ys hxs ih => rw [lines_cons hxs, List.flatMap_cons, cut_append_stop hstop, ih]

theorem mem_lines (h : l ∈ lines stop xs) : ∃ s, stop ∉ s ∧ (l = s ++ [stop] ∨ l = s ∧ s ≠ []) := by
  induction xs using lines_induction (c := stop) with
  | nil => cases h
  | last xs hxs hne =>
    rw [lines_last hxs hne, List.mem_singleton] at h
    exact ⟨xs, hxs, .inr ⟨h, hne⟩⟩
  | line xs ys hxs ih =>
    rw [lines_cons hxs] at h
    rcases List.mem_cons.mp h with h | h
    · exact ⟨xs, hxs, .inl h⟩
    · exact ih h

end Lines

section Ended

variable {stop : α} {f : β → List α}

def ended (stop : α) (texts : List (List α)) : List α := texts.flatMap (· ++ [stop])

theorem ended_cons (stop : α) (text : List α) (texts : List (List α)) :
    ended stop (text :: texts) = text ++ stop :: ended stop texts := by
  rw [ended, List.flatMap_cons, List.append_assoc]
  rfl

theorem append_stop_inj {xs ys as bs : List α} (hxs : stop ∉ xs) (hys : stop ∉ ys)
    (h : xs ++ stop :: as = ys ++ stop :: bs) : xs = ys ∧ as = bs := by
  induction xs generalizing ys with
  | nil =>
    cases ys with
    | nil => exact ⟨rfl, (List.cons.inj h).2⟩
    | cons y ys => exact absurd ((List.cons.inj h).1 ▸ List.mem_cons_self) hys
  | cons x xs ih =>
    cases ys with
    | nil => exact absurd ((List.cons.inj h).1 ▸ List.mem_cons_self) hxs
    | cons y ys =>
      obtain ⟨rfl, htail⟩ := List.cons.inj h
      rw [List.mem_cons, not_or] at hxs hys
      obtain ⟨rfl, hrest⟩ := ih hxs.2 hys.2 htail
      exact ⟨rfl, hrest⟩

/-- Where different things have different texts, and none has the item in it that ends it, the
things can be told from the texts, the first ones from the first texts. -/
theorem ended_front {xs ys : List β} (hxs : ∀ x ∈ xs, stop ∉ f x) (hys : ∀ y ∈ ys, stop ∉ f y)
    (hinj : ∀ x ∈ xs, ∀ y ∈ ys, f x = f y → x = y)
    (h : ended stop (xs.map f) <+: ended stop (ys.map f)) : xs <+: ys := by
  induction xs generalizing ys with
  | nil => exact List.nil_prefix
  | cons x xs ih =>
    cases ys with
    | nil =>
      rw [List.map_cons, ended_cons] at h
      have hnil := List.prefix_nil.mp h
      cases (List.append_eq_nil_iff.mp hnil).2
    | cons y ys =>
      obtain ⟨rest, hrest⟩ := h
      rw [List.map_cons, List.map_cons, ended_cons, ended_cons, List.append_assoc,
        List.cons_append] at hrest
      rw [List.forall_mem_cons] at hxs hys
      obtain ⟨htext, hmore⟩ := append_stop_inj hxs.1 hys.1 hrest
      obtain rfl := hinj x List.mem_cons_self y List.mem_cons_self htext
      refine List.cons_prefix_cons.mpr ⟨rfl, ih hxs.2 hys.2 ?_ ⟨rest, hmore⟩⟩
      exact fun u hu v hv => hinj u (List.mem_cons_of_mem _ hu) v (List.mem_cons_of_mem _ hv)

theorem ended_inj {xs ys : List (List α)} (hxs : ∀ x ∈ xs, stop ∉ x) (hys : ∀ y ∈ ys, stop ∉ y)
    (h : ended stop xs = ended stop ys) : xs = ys := by
  have hfront {us vs : List (List α)} (hus : ∀ u ∈ us, stop ∉ u) (hvs : ∀ v ∈ vs, stop ∉ v)
      (h : ended stop us = ended stop vs) : us <+: vs := by
    apply ended_front (f := id) hus hvs fun _ _ _ _ he => he
    rw [List.map_id, List.map_id]
    exact h ▸ List.prefix_refl _
  have hle := (hfront hys hxs h.symm).length_le
  exact (hfront hxs hys h).eq_of_length_le hle

end Ended

end LineCuts
