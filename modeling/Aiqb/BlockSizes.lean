import Aiqb.DraftSteps

namespace Aiqb
set_option autoImplicit true

variable {W : Type} {env : Env W} {b : Option Block} {n i v : UInt64} {d d' : ProblemDraft}

/-- What malloc was last asked for is room for `n` elements. -/
structure Backed (b : Option Block) (n : UInt64) : Prop where
  bytes : ∀ a, b = some a → a.bytes = n * 8
  granted : 0 < n → b.isSome

theorem Backed.none : Backed none 0 :=
  ⟨fun _ h => (Option.some_ne_none _ h.symm).elim, fun h => absurd h (by decide)⟩

theorem Backed.length (h : Backed (some a) n) : a.length = n.toNat % 2 ^ 61 := by
  have hn := n.toNat_lt
  rw [Block.length, h.bytes a rfl, UInt64.toNat_mul, show (8 : UInt64).toNat = 8 from rfl]
  omega

theorem Backed.inside_iff (h : Backed b n) (i v : UInt64) :
    (∃ a a', b = some a ∧ a.store i v = some a') ↔ i.toNat < n.toNat % 2 ^ 61 := by
  cases b with
  | none =>
    have hzero : ¬ 0 < n := fun hpos => by cases h.granted hpos
    have hn : n.toNat = 0 := Nat.eq_zero_of_not_pos fun hp => hzero (UInt64.lt_iff_toNat_lt.mpr hp)
    rw [hn]
    exact iff_of_false (fun ⟨_, _, hb, _⟩ => by cases hb) (Nat.not_lt_zero _)
  | some a =>
    rw [← h.length]
    constructor
    · rintro ⟨_, a', ⟨⟩, hs⟩
      exact Block.store_bound hs
    · intro hi
      obtain ⟨a', hs⟩ := Block.store_inside hi v
      exact ⟨a, a', rfl, hs⟩

theorem Backed.store (h : Backed (some a) n) (hs : a.store i v = some a') :
    Backed (some a') n := by
  have hbytes : a'.bytes = a.bytes := by
    simp only [Block.store, Option.ite_none_right_eq_some, Option.some.injEq] at hs
    rw [← hs.2]
  refine ⟨?_, fun _ => rfl⟩
  rintro _ ⟨⟩
  exact hbytes.trans (h.bytes a rfl)

def Extended (n : UInt64) : Prop := n.toNat < 2 ^ 31 ∨ 2 ^ 64 - 2 ^ 31 ≤ n.toNat

theorem Extended.zero : Extended 0 := .inl (by decide)

/-- The code's range test of a section keeps a store inside the array of the section. -/
theorem Extended.inside (hn : Extended n) (hi : i.toNat < 65536) (hlo : 7 + k < i)
    (hhi : i < 8 + k + n) : (i - 8 - k).toNat < n.toNat % 2 ^ 61 := by
  have hk := k.toNat_lt
  have hn' := n.toNat_lt
  rw [UInt64.lt_iff_toNat_lt] at hlo hhi
  rw [UInt64.toNat_add, show (7 : UInt64).toNat = 7 from rfl] at hlo
  rw [UInt64.toNat_add, UInt64.toNat_add, show (8 : UInt64).toNat = 8 from rfl] at hhi
  rw [UInt64.toNat_sub, UInt64.toNat_sub, show (8 : UInt64).toNat = 8 from rfl]
  rcases hn with hn | hn <;> omega

/-- The arrays of a problem have the room that was asked for; `points` is the number of elements
that `data` was allocated with. -/
structure ProblemT.Sized (p : ProblemT) (points : UInt64) : Prop where
  cvSize : Extended p.cvSize
  testSize : Extended p.testSize
  stateSize : Extended p.stateSize
  cvData : Backed p.cvData p.cvSize
  testData : Backed p.testData p.testSize
  state : Backed p.state p.stateSize
  data : Backed p.data points

namespace ProblemT.Sized

variable {points : UInt64} {index : UInt16}

theorem storeElement_some {a : Option Block} {put : Block → ProblemT} {slot : ProblemSlot}
    (h : Backed a n) (hi : i.toNat < n.toNat % 2 ^ 61) (v : UInt64) (d : ProblemDraft) :
    ∃ d', storeElement a put slot i v d = some d' := by
  obtain ⟨b, b', rfl, hs⟩ := (h.inside_iff i v).mpr hi
  refine ⟨d.assign slot (put b'), ?_⟩
  simp only [storeElement, Option.bind_eq_bind, Option.bind_some, hs]

theorem storeCvData (h : d.val.Sized points) (hs : storeCvData i v d = some d') :
    d'.val.Sized points := by
  obtain ⟨b, b', hb, hstore, rfl⟩ := storeElement_spec hs
  have hbacked : Backed (some b) d.val.cvSize := hb ▸ h.cvData
  exact { h with cvData := hbacked.store hstore }

theorem storeTestData (h : d.val.Sized points) (hs : storeTestData i v d = some d') :
    d'.val.Sized points := by
  obtain ⟨b, b', hb, hstore, rfl⟩ := storeElement_spec hs
  have hbacked : Backed (some b) d.val.testSize := hb ▸ h.testData
  exact { h with testData := hbacked.store hstore }

theorem storeData (h : d.val.Sized points) (hs : storeData i v d = some d') :
    d'.val.Sized points := by
  obtain ⟨b, b', hb, hstore, rfl⟩ := storeElement_spec hs
  have hbacked : Backed (some b) points := hb ▸ h.data
  exact { h with data := hbacked.store hstore }

theorem storeState (h : d.val.Sized points) (hs : storeState i v d = some d') :
    d'.val.Sized points := by
  obtain ⟨b, b', hb, hstore, rfl⟩ := storeElement_spec hs
  have hbacked : Backed (some b) d.val.stateSize := hb ▸ h.state
  exact { h with state := hbacked.store hstore }

theorem extend_lt (index : UInt16) : index.toUInt64.toNat < 65536 := by
  rw [toNat_extend]
  exact index.toNat_lt

theorem storeTestData_some (h : d.val.Sized points) (index : UInt16) (v : UInt64)
    (hrange : 7 + d.val.cvSize < index.toUInt64 ∧
      index.toUInt64 < 8 + d.val.cvSize + d.val.testSize) :
    ∃ d', Aiqb.storeTestData (index.toUInt64 - 8 - d.val.cvSize) v d = some d' ∧
      d'.val.Sized points := by
  have hin := h.testSize.inside (extend_lt index) hrange.1 hrange.2
  obtain ⟨d', hd'⟩ := storeElement_some h.testData hin v d
  exact ⟨d', hd', h.storeTestData hd'⟩

theorem storeIndex (h : d.val.Sized points) (index : UInt16) (v : UInt64) :
    ∃ d', storeIndex index.toUInt64 v d = some d' ∧ d'.val.Sized points := by
  simp only [Aiqb.storeIndex, Option.bind_eq_bind]
  split
  · next hrange =>
    have hin : (index.toUInt64 - 8 - 0).toNat < d.val.cvSize.toNat % 2 ^ 61 :=
      h.cvSize.inside (extend_lt index) hrange.1 hrange.2
    rw [UInt64.sub_zero] at hin
    obtain ⟨m, hm⟩ := storeElement_some h.cvData hin v d
    have hsized := h.storeCvData hm
    rw [Aiqb.storeCvData, hm, Option.bind_some]
    split
    · next hrange' => exact hsized.storeTestData_some index v hrange'
    · exact ⟨m, rfl, hsized⟩
  · rw [Option.bind_some]
    split
    · next hrange' => exact h.storeTestData_some index v hrange'
    · exact ⟨d, rfl, h⟩

theorem storeState_some (h : d.val.Sized points) (index : UInt16) (v : UInt64)
    (hrange : 7 + d.val.cvSize + d.val.testSize + d.val.points < index.toUInt64 ∧
      index.toUInt64 < 8 + d.val.cvSize + d.val.testSize + d.val.points + d.val.stateSize) :
    ∃ d', Aiqb.storeState
        (index.toUInt64 - 8 - d.val.cvSize - d.val.testSize - d.val.points) v d = some d' ∧
      d'.val.Sized points := by
  have hlo : 7 + (d.val.cvSize + d.val.testSize + d.val.points) < index.toUInt64 := by
    rw [← UInt64.add_assoc, ← UInt64.add_assoc]
    exact hrange.1
  have hhi : index.toUInt64 <
      8 + (d.val.cvSize + d.val.testSize + d.val.points) + d.val.stateSize := by
    rw [← UInt64.add_assoc, ← UInt64.add_assoc]
    exact hrange.2
  have hin := h.stateSize.inside (extend_lt index) hlo hhi
  have hsub (i a b c : UInt64) : i - (a + b + c) = i - a - b - c := by grind
  rw [hsub] at hin
  obtain ⟨d', hd'⟩ := storeElement_some h.state hin v d
  exact ⟨d', hd', h.storeState hd'⟩

/-- The stores of a float are inside where its place in the data section is among the elements
that `data` was allocated with. -/
theorem storePoint_iff (h : d.val.Sized points) (index : UInt16) (v : UInt64) :
    (∃ d', storePoint index.toUInt64 v d = some d') ↔
      (7 + d.val.cvSize + d.val.testSize < index.toUInt64 ∧
        index.toUInt64 < 8 + d.val.cvSize + d.val.testSize + d.val.points →
        (index.toUInt64 - 8 - d.val.cvSize - d.val.testSize).toNat < points.toNat % 2 ^ 61) := by
  simp only [storePoint, Option.bind_eq_bind]
  split
  · next hrange =>
    rw [imp_iff_right hrange]
    constructor
    · rintro ⟨d', hd'⟩
      obtain ⟨m, hm, _⟩ := Option.bind_eq_some_iff.mp hd'
      obtain ⟨b, b', hb, hs, _⟩ := storeElement_spec hm
      exact (h.data.inside_iff _ v).mp ⟨b, b', hb, hs⟩
    · intro hin
      obtain ⟨m, hm⟩ := storeElement_some h.data hin v d
      have hsized := h.storeData hm
      rw [Aiqb.storeData, hm, Option.bind_some]
      split
      · next hrange' =>
        obtain ⟨d', hd', _⟩ := hsized.storeState_some index v hrange'
        exact ⟨d', hd'⟩
      · exact ⟨m, rfl⟩
  · next hrange =>
    rw [Option.bind_some]
    refine iff_of_true ?_ fun hin => (hrange hin).elim
    split
    · next hrange' =>
      obtain ⟨d', hd', _⟩ := h.storeState_some index v hrange'
      exact ⟨d', hd'⟩
    · exact ⟨d, rfl⟩

theorem storePoint (h : d.val.Sized points) (hs : storePoint i v d = some d') :
    d'.val.Sized points := by
  apply storePoint_rule (P := fun d => d.val.Sized points) h hs
  · exact fun _ _ _ hd => hd.storeData
  · exact fun _ _ _ hd => hd.storeState

end ProblemT.Sized

/-- malloc returns NULL or a block of exactly the size it is asked for, and the memory of a
problem is zero. -/
structure Env.AllocatesExactly (env : Env W) : Prop where
  malloc : ∀ w n a w', env.malloc w n = (some a, w') → a.bytes = n
  problem : ∀ w ptr p w', env.mallocProblem w = (some (ptr, p), w') → p = .zero

theorem Env.AllocatesExactly.backed (hm : env.AllocatesExactly)
    (hb : env.malloc w (n * 8) = (b, w')) (hok : ¬ (n > 0 ∧ b.isNone)) : Backed b n := by
  refine ⟨?_, ?_⟩
  · rintro a rfl
    exact hm.malloc w (n * 8) a w' hb
  · intro hpos
    rw [← Option.not_isNone]
    exact Bool.not_eq_true' _ ▸ eq_false_of_ne_true fun hnone => hok ⟨hpos, hnone⟩

theorem ProblemT.Sized.assignHeader {index : UInt16} {asked : UInt64}
    (hm : env.AllocatesExactly) (h : d.val.Sized asked) (hv : Extended v)
    (ha : assignHeader env w index v d = (.ok d', w')) :
    d'.val.Sized (if index.toNat = 4 then d.val.rows * (d.val.sizeX + v) else asked) := by
  unfold Aiqb.assignHeader at ha
  by_cases hfour : index.toNat = 4
  · simp only [hfour] at ha
    obtain ⟨b, hb, hok, rfl⟩ := allocArray_ok ha
    rw [if_pos hfour]
    exact { h with data := hm.backed hb hok }
  · rw [if_neg hfour]
    split at ha
    · cases ha
      exact { h with }
    · cases ha
      exact { h with }
    · cases ha
      exact { h with }
    · cases ha
      exact { h with }
    · next hi => exact (hfour hi).elim
    · obtain ⟨b, hb, hok, rfl⟩ := allocArray_ok ha
      exact { h with cvSize := hv, cvData := hm.backed hb hok }
    · obtain ⟨b, hb, hok, rfl⟩ := allocArray_ok ha
      exact { h with testSize := hv, testData := hm.backed hb hok }
    · obtain ⟨b, hb, hok, rfl⟩ := allocArray_ok ha
      exact { h with stateSize := hv, state := hm.backed hb hok }
    · cases ha
      exact h

theorem Backed.assignAnswer {a a' : AnswerDraft} {index : UInt16} {asked : UInt64}
    (hm : env.AllocatesExactly) (h : Backed a.val.data asked)
    (ha : assignAnswer env w index v a = some (.ok a', w')) :
    Backed a'.val.data (if index.toNat = 2 then a.val.sizeX + v else asked) := by
  unfold Aiqb.assignAnswer at ha
  by_cases htwo : index.toNat = 2
  · simp only [htwo, Option.some.injEq, Prod.mk.injEq] at ha
    rw [if_pos htwo]
    obtain ⟨hmap, hw⟩ := ha
    cases hr : allocArray env w (a.val.sizeX + v)
        (fun b => (a.assign .sizeY { a.val with sizeY := v, data := b }).renew AnswerSlot.isData)
        [.answer a.ptr] with
    | mk r w₁ =>
      rw [hr] at hmap
      cases r with
      | error fs => cases hmap
      | ok a₁ =>
        cases hmap
        obtain ⟨b, hb, hok, rfl⟩ := allocArray_ok hr
        exact hm.backed hb hok
  · rw [if_neg htwo]
    split at ha
    · obtain ⟨o, _, ha⟩ := Option.map_eq_some_iff.mp ha
      cases o with
      | none => cases ha
      | some p =>
        cases ha
        exact h
    · cases ha
      exact h
    · next hi => exact (htwo hi).elim
    · cases ha
      exact h

theorem Backed.storeOutput_iff {a : AnswerDraft} {asked : UInt64} (h : Backed a.val.data asked)
    (i v : UInt64) :
    (∃ a', storeOutput i v a = some a') ↔
      (2 < i ∧ i < 3 + a.val.sizeX + a.val.sizeY →
        (i - 3).toNat < asked.toNat % 2 ^ 61) := by
  unfold storeOutput
  split
  · next hrange =>
    rw [imp_iff_right hrange, ← h.inside_iff _ v]
    constructor
    · rintro ⟨a', ha'⟩
      obtain ⟨b, hb, ha'⟩ := Option.bind_eq_some_iff.mp ha'
      obtain ⟨b', hb', _⟩ := Option.bind_eq_some_iff.mp ha'
      exact ⟨b, b', hb, hb'⟩
    · rintro ⟨b, b', hb, hb'⟩
      simp only [hb, Option.bind_eq_bind, Option.bind_some, hb', Option.some.injEq, exists_eq']
  · next hrange => exact iff_of_true ⟨a, rfl⟩ fun hin => (hrange hin).elim

theorem Backed.storeOutput {a a' : AnswerDraft} {asked : UInt64} (h : Backed a.val.data asked)
    (hs : storeOutput i v a = some a') : Backed a'.val.data asked := by
  unfold Aiqb.storeOutput at hs
  split at hs
  · obtain ⟨b, hb, hs⟩ := Option.bind_eq_some_iff.mp hs
    obtain ⟨b', hb', hs⟩ := Option.bind_eq_some_iff.mp hs
    cases hs
    have hbacked : Backed (some b) asked := hb ▸ h
    exact hbacked.store hb'
  · cases hs
    exact h

end Aiqb
