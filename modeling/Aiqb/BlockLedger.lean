import Aiqb.Runs
import Mathlib.Data.List.Nodup
import Mathlib.Data.List.Perm.Subperm

namespace Aiqb
set_option autoImplicit true

/-- What happens to blocks of memory: one is given out, freed (or NULL is), handed over for others
to keep, or taken back from there. -/
inductive BlockEvent (κ β : Type) where
  | given (kind : κ) (b : β)
  | freed (b : Option β)
  | handed (kind : κ) (b : β)
  | taken (b : β)

def BlockEvent.givenAs [DecidableEq κ] (kind : κ) : BlockEvent κ β → Option β
  | .given k b => if k = kind then some b else none
  | _ => none

def BlockEvent.handedAs [DecidableEq κ] (kind : κ) : BlockEvent κ β → Option β
  | .handed k b => if k = kind then some b else none
  | _ => none

def latest [DecidableEq κ] (kind : κ) (t : List (BlockEvent κ β)) : Option β :=
  (t.filterMap (BlockEvent.givenAs kind)).getLast?

theorem latest_snoc [DecidableEq κ] (kind : κ) (t : List (BlockEvent κ β)) (e : BlockEvent κ β) :
    latest kind (t ++ [e]) = (e.givenAs kind).or (latest kind t) := by
  rw [latest, List.filterMap_append, List.getLast?_append]
  cases h : e.givenAs kind with
  | none => rw [List.filterMap_cons_none h]; rfl
  | some b => rw [List.filterMap_cons_some h]; rfl

theorem mem_handedAs [DecidableEq κ] {kind : κ} {t : List (BlockEvent κ β)} :
    b ∈ t.filterMap (BlockEvent.handedAs kind) ↔ .handed kind b ∈ t := by
  rw [List.mem_filterMap]
  constructor
  · rintro ⟨e, he, hb⟩
    cases e with
    | handed k b' =>
      rw [BlockEvent.handedAs, Option.ite_none_right_eq_some] at hb
      obtain ⟨rfl, hb⟩ := hb
      cases hb
      exact he
    | _ => cases hb
  · exact fun h => ⟨_, h, if_pos rfl⟩

theorem mem_givenAs [DecidableEq κ] {kind : κ} {t : List (BlockEvent κ β)} :
    b ∈ t.filterMap (BlockEvent.givenAs kind) ↔ .given kind b ∈ t := by
  rw [List.mem_filterMap]
  constructor
  · rintro ⟨e, he, hb⟩
    cases e with
    | given k b' =>
      rw [BlockEvent.givenAs, Option.ite_none_right_eq_some] at hb
      obtain ⟨rfl, hb⟩ := hb
      cases hb
      exact he
    | _ => cases hb
  · exact fun h => ⟨_, h, if_pos rfl⟩

theorem given_of_latest [DecidableEq κ] {kind : κ} {t : List (BlockEvent κ β)}
    (h : latest kind t = some b) : .given kind b ∈ t :=
  mem_givenAs.mp (List.mem_of_getLast? h)

/-- The blocks that are in use before the first event: those handed over, and the others. -/
structure Stock (β : Type) where
  handed : List β
  others : List β

namespace Stock

variable {κ β : Type} {q : Stock β} {t t' : List (BlockEvent κ β)} {b p : β}
variable {own own' others others' handed handed' : List β}

def Given (q : Stock β) (t : List (BlockEvent κ β)) (b : β) : Prop :=
  b ∈ q.handed ∨ b ∈ q.others ∨ ∃ kind, .given kind b ∈ t

def Handed (q : Stock β) (t : List (BlockEvent κ β)) (b : β) : Prop :=
  b ∈ q.handed ∨ ∃ kind, .handed kind b ∈ t

/-- No block is given out twice, freed twice, or handed over twice. Once handed over, it is freed
only after it was taken back; and only the latest of its kind is handed over. -/
def Lawful [DecidableEq κ] (q : Stock β) (t : List (BlockEvent κ β)) : BlockEvent κ β → Prop
  | .given _ b => ¬ q.Given t b
  | .freed none => True
  | .freed (some b) =>
    q.Given t b ∧ .freed (some b) ∉ t ∧
      (q.Handed t b → ∃ pre a, t = pre ++ [.taken b, .freed a])
  | .handed kind b => latest kind t = some b ∧ ¬ q.Handed t b
  | .taken b => q.Handed t b

theorem Given.mono (h : q.Given t b) (hs : t ⊆ t') : q.Given t' b :=
  h.imp_right fun h => h.imp_right fun ⟨kind, hm⟩ => ⟨kind, hs hm⟩

theorem Handed.mono (h : q.Handed t b) (hs : t ⊆ t') : q.Handed t' b :=
  h.imp_right fun ⟨kind, hm⟩ => ⟨kind, hs hm⟩

theorem Given.snoc (h : q.Given t b) (e : BlockEvent κ β) : q.Given (t ++ [e]) b :=
  h.mono (List.subset_append_left t [e])

theorem Handed.snoc (h : q.Handed t b) (e : BlockEvent κ β) : q.Handed (t ++ [e]) b :=
  h.mono (List.subset_append_left t [e])

theorem Given.of_snoc {e : BlockEvent κ β} (he : ∀ kind, e ≠ .given kind b)
    (h : q.Given (t ++ [e]) b) : q.Given t b := by
  refine h.imp_right fun h => h.imp_right fun ⟨kind, hm⟩ => ⟨kind, ?_⟩
  rcases List.mem_append.mp hm with hm | hm
  · exact hm
  · exact (he kind (List.mem_singleton.mp hm).symm).elim

theorem Handed.of_snoc {e : BlockEvent κ β} (he : ∀ kind, e ≠ .handed kind b)
    (h : q.Handed (t ++ [e]) b) : q.Handed t b := by
  refine h.imp_right fun ⟨kind, hm⟩ => ⟨kind, ?_⟩
  rcases List.mem_append.mp hm with hm | hm
  · exact hm
  · exact (he kind (List.mem_singleton.mp hm).symm).elim

theorem not_freed_snoc {e : BlockEvent κ β} (h : .freed (some b) ∉ t)
    (he : e ≠ .freed (some b)) : .freed (some b) ∉ t ++ [e] := by
  intro hm
  rcases List.mem_append.mp hm with hm | hm
  · exact h hm
  · exact he (List.mem_singleton.mp hm).symm

variable [DecidableEq κ]

theorem given_of_freed (hl : Throughout q.Lawful t) (h : .freed (some b) ∈ t) : q.Given t b := by
  obtain ⟨pre, hp, hb, _⟩ := hl.of_mem h
  exact hb.mono ((List.prefix_append pre _).trans hp).subset

theorem given_of_handed (hl : Throughout q.Lawful t) (h : q.Handed t b) : q.Given t b := by
  rcases h with h | ⟨kind, h⟩
  · exact .inl h
  · obtain ⟨pre, hp, hb, _⟩ := hl.of_mem h
    exact .inr (.inr ⟨kind, ((List.prefix_append pre _).trans hp).subset (given_of_latest hb)⟩)

theorem handedAs_nodup (hl : Throughout q.Lawful t) (kind : κ) :
    (t.filterMap (BlockEvent.handedAs kind)).Nodup := by
  induction t using List.reverseRecOn with
  | nil => exact List.nodup_nil
  | append_singleton t e ih =>
    rw [List.filterMap_append]
    have hrest := ih hl.init
    cases he : e.handedAs kind with
    | none =>
      rw [List.filterMap_cons_none he, List.filterMap_nil, List.append_nil]
      exact hrest
    | some b =>
      rw [List.filterMap_cons_some he, List.filterMap_nil]
      have hmem : .handed kind b ∈ [e] :=
        mem_handedAs.mp (List.mem_filterMap.mpr ⟨e, List.mem_singleton_self e, he⟩)
      have hlast := hl.last
      rw [← List.mem_singleton.mp hmem] at hlast
      rw [List.nodup_append_comm, List.singleton_append, List.nodup_cons]
      exact ⟨fun hm => hlast.2 (.inr ⟨kind, mem_handedAs.mp hm⟩), hrest⟩

theorem handed_le_given (hl : Throughout q.Lawful t) (kind : κ) :
    (t.filterMap (BlockEvent.handedAs kind)).length ≤
      (t.filterMap (BlockEvent.givenAs kind)).length := by
  apply List.Subperm.length_le
  apply List.subperm_of_subset (handedAs_nodup hl kind)
  intro b hb
  obtain ⟨pre, hp, hlatest, _⟩ := hl.of_mem (mem_handedAs.mp hb)
  exact mem_givenAs.mpr
    (((List.prefix_append pre _).trans hp).subset (given_of_latest hlatest))

/-- The blocks in use after the events `t`: those of the program, and those that others keep. -/
structure Books (q : Stock β) (t : List (BlockEvent κ β)) (own others handed : List β) : Prop where
  nodup : (own ++ (others ++ handed)).Nodup
  given : ∀ b ∈ own ++ (others ++ handed), q.Given t b
  unfreed : ∀ b ∈ own ++ (others ++ handed), .freed (some b) ∉ t
  kept : ∀ b ∈ own ++ others, ¬ q.Handed t b
  handed : ∀ b ∈ handed, q.Handed t b
  lawful : Throughout q.Lawful t

namespace Books

theorem shrink (h : q.Books t own others handed) (ho : own'.Subperm own)
    (hs : others'.Subperm others) (hh : handed'.Subperm handed) :
    q.Books t own' others' handed' := by
  have hall : (own' ++ (others' ++ handed')).Subperm (own ++ (others ++ handed)) :=
    ho.append (hs.append hh)
  exact {
    nodup := by
      obtain ⟨l, hp, hl⟩ := hall
      exact hp.nodup_iff.mp (h.nodup.sublist hl)
    given := fun b hb => h.given b (hall.subset hb)
    unfreed := fun b hb => h.unfreed b (hall.subset hb)
    kept := fun b hb => h.kept b ((ho.append hs).subset hb)
    handed := fun b hb => h.handed b (hh.subset hb)
    lawful := h.lawful }

theorem snoc (h : q.Books t own others handed) {e : BlockEvent κ β} (hl : q.Lawful t e)
    (hf : ∀ b ∈ own ++ (others ++ handed), e ≠ .freed (some b))
    (hh : ∀ kind, ∀ b ∈ own ++ others, e ≠ .handed kind b) :
    q.Books (t ++ [e]) own others handed where
  nodup := h.nodup
  given b hb := (h.given b hb).snoc e
  unfreed b hb := not_freed_snoc (h.unfreed b hb) (hf b hb)
  kept b hb hd := h.kept b hb (hd.of_snoc fun kind => hh kind b hb)
  handed b hb := (h.handed b hb).snoc e
  lawful := h.lawful.snoc hl

theorem own_new (h : q.Books t own others handed) (hn : b ∉ own ++ (others ++ handed))
    (hg : q.Given t b) (hf : .freed (some b) ∉ t) (hh : ¬ q.Handed t b) :
    q.Books t (b :: own) others handed where
  nodup := List.nodup_cons.mpr ⟨hn, h.nodup⟩
  given := List.forall_mem_cons.mpr ⟨hg, h.given⟩
  unfreed := List.forall_mem_cons (p := fun b => .freed (some b) ∉ t).mpr ⟨hf, h.unfreed⟩
  kept := List.forall_mem_cons.mpr ⟨hh, h.kept⟩
  handed := h.handed
  lawful := h.lawful

theorem handed_new (h : q.Books t own others handed) (hn : b ∉ own ++ (others ++ handed))
    (hg : q.Given t b) (hf : .freed (some b) ∉ t) (hh : q.Handed t b) :
    q.Books t own others (handed ++ [b]) := by
  have hperm : (own ++ (others ++ (handed ++ [b]))).Perm (b :: (own ++ (others ++ handed))) := by
    rw [← List.append_assoc, ← List.append_assoc, ← List.append_assoc]
    exact List.perm_append_singleton b _
  exact {
    nodup := hperm.nodup_iff.mpr (List.nodup_cons.mpr ⟨hn, h.nodup⟩)
    given := fun c hc => List.forall_mem_cons.mpr ⟨hg, h.given⟩ c (hperm.mem_iff.mp hc)
    unfreed := fun c hc =>
      List.forall_mem_cons (p := fun b => .freed (some b) ∉ t).mpr ⟨hf, h.unfreed⟩ c
        (hperm.mem_iff.mp hc)
    kept := h.kept
    handed := List.forall_mem_append.mpr ⟨h.handed, List.forall_mem_singleton.mpr hh⟩
    lawful := h.lawful }

theorem entrust (h : q.Books t own others handed) : q.Books t [] (others ++ own) handed := by
  have hperm : (own ++ others).Perm (others ++ own) := List.perm_append_comm
  have hall : (own ++ (others ++ handed)).Perm ((others ++ own) ++ handed) := by
    rw [← List.append_assoc]
    exact hperm.append_right handed
  exact {
    nodup := hall.nodup_iff.mp h.nodup
    given := fun b hb => h.given b (hall.mem_iff.mpr hb)
    unfreed := fun b hb => h.unfreed b (hall.mem_iff.mpr hb)
    kept := fun b hb => h.kept b (hperm.mem_iff.mpr hb)
    handed := h.handed
    lawful := h.lawful }

theorem give (h : q.Books t own others handed) (hb : ¬ q.Given t b) (kind : κ) :
    q.Books (t ++ [.given kind b]) (b :: own) others handed := by
  have hgiven : q.Books (t ++ [.given kind b]) own others handed :=
    h.snoc hb (fun _ _ he => by cases he) fun _ _ _ he => by cases he
  apply hgiven.own_new
  · exact fun hm => hb (h.given b hm)
  · exact .inr (.inr ⟨kind, List.mem_append_right t (List.mem_singleton.mpr rfl)⟩)
  · exact not_freed_snoc (fun hf => hb (given_of_freed h.lawful hf)) fun he => by cases he
  · exact fun hh => hb (given_of_handed h.lawful (hh.of_snoc fun _ he => by cases he))

theorem free (h : q.Books t (b :: own) others handed) :
    q.Books (t ++ [.freed (some b)]) own others handed := by
  have hb : b ∈ b :: (own ++ (others ++ handed)) := List.mem_cons_self
  have hout := (List.nodup_cons.mp h.nodup).1
  have hown := h.shrink (List.sublist_cons_self b own).subperm (.refl _) (.refl _)
  apply hown.snoc
  · exact ⟨h.given b hb, h.unfreed b hb, fun hh => (h.kept b List.mem_cons_self hh).elim⟩
  · rintro c hc ⟨⟩
    exact hout hc
  · exact fun _ _ _ he => by cases he

theorem free_null (h : q.Books t own others handed) :
    q.Books (t ++ [.freed none]) own others handed :=
  h.snoc trivial (fun _ _ he => by cases he) fun _ _ _ he => by cases he

theorem free_option (h : q.Books t (a.toList ++ own) others handed) :
    q.Books (t ++ [.freed a]) own others handed := by
  cases a with
  | none => exact h.free_null
  | some b => exact h.free

theorem hand (h : q.Books t (p :: own) others handed) {kind : κ} (hl : latest kind t = some p) :
    q.Books (t ++ [.handed kind p]) [] (others ++ own) (handed ++ [p]) := by
  have hp : p ∈ p :: (own ++ (others ++ handed)) := List.mem_cons_self
  have hout := (List.nodup_cons.mp h.nodup).1
  have hown := h.shrink (List.sublist_cons_self p own).subperm (.refl _) (.refl _)
  have hhanded : q.Books (t ++ [.handed kind p]) own others handed := by
    apply hown.snoc
    · exact ⟨hl, h.kept p List.mem_cons_self⟩
    · exact fun _ _ he => by cases he
    · rintro _ c hc ⟨⟩
      have hsub : own ++ others ⊆ own ++ (others ++ handed) := by
        rw [← List.append_assoc]
        exact List.subset_append_left _ _
      exact hout (hsub hc)
  apply (hhanded.handed_new hout ((h.given p hp).snoc _) ?_ ?_).entrust
  · exact not_freed_snoc (h.unfreed p hp) fun he => by cases he
  · exact .inr ⟨kind, List.mem_append_right t (List.mem_singleton.mpr rfl)⟩

theorem hand_away (h : q.Books t (p :: own) others handed) {kind : κ}
    (hl : latest kind t = some p) : q.Books (t ++ [.handed kind p]) [] others handed :=
  (h.hand hl).shrink (.refl _) (List.sublist_append_left others own).subperm
    (List.sublist_append_left handed [p]).subperm

theorem regain (h : q.Books t own (b :: others) handed) : q.Books t (b :: own) others handed := by
  have hperm : (own ++ b :: others).Perm (b :: (own ++ others)) := List.perm_middle
  have hall : (own ++ (b :: others ++ handed)).Perm (b :: own ++ (others ++ handed)) :=
    List.perm_middle
  exact {
    nodup := hall.nodup_iff.mp h.nodup
    given := fun c hc => h.given c (hall.mem_iff.mpr hc)
    unfreed := fun c hc => h.unfreed c (hall.mem_iff.mpr hc)
    kept := fun c hc => h.kept c (hperm.mem_iff.mpr hc)
    handed := h.handed
    lawful := h.lawful }

theorem free_handed (h : q.Books t own others (p :: handed))
    (ht : ∃ pre a, t = pre ++ [.taken p, .freed a]) :
    q.Books (t ++ [.freed (some p)]) own others handed := by
  have hperm : (own ++ (others ++ p :: handed)).Perm (p :: (own ++ (others ++ handed))) := by
    rw [← List.append_assoc, ← List.append_assoc]
    exact List.perm_middle
  have hp : p ∈ own ++ (others ++ p :: handed) := hperm.mem_iff.mpr List.mem_cons_self
  have hout := (List.nodup_cons.mp (hperm.nodup_iff.mp h.nodup)).1
  have hrest := h.shrink (.refl own) (.refl others) (List.sublist_cons_self p handed).subperm
  apply hrest.snoc
  · exact ⟨h.given p hp, h.unfreed p hp, fun _ => ht⟩
  · rintro c hc ⟨⟩
    exact hout hc
  · exact fun _ _ _ he => by cases he

theorem destroy (h : q.Books t own others handed) (ho : (a.toList ++ others').Subperm others)
    (hh : (p :: handed').Subperm handed) :
    q.Books (t ++ [.taken p, .freed a, .freed (some p)]) own others' handed' := by
  have htaken : q.Books (t ++ [.taken p]) own (a.toList ++ others') (p :: handed') := by
    have hall := h.shrink (.refl own) ho hh
    exact hall.snoc (hall.handed p List.mem_cons_self) (fun _ _ he => by cases he)
      fun _ _ _ he => by cases he
  have hfreed : q.Books (t ++ [.taken p] ++ [.freed a]) own others' (p :: handed') := by
    cases a with
    | none => exact htaken.free_null
    | some b => exact htaken.regain.free
  have hfinal := hfreed.free_handed ⟨t, a, List.append_assoc t _ _⟩
  rw [List.append_assoc, List.append_assoc] at hfinal
  exact hfinal

end Books

end Stock

end Aiqb
