import Aiqb.ClientMessages
import Mathlib.Tactic.IntervalCases

namespace Aiqb
set_option autoImplicit true

variable {W : Type} {env : Env W} {atof : CString → UInt64} {t : CString}

def Env.MallocExact (env : Env W) : Prop :=
  ∀ w n b w', env.malloc w n = (some b, w') → b.bytes = n

theorem allocArray_holds {put : Option Block → δ} {n : UInt64} (hm : env.MallocExact)
    (h : allocArray env w n put fs = (.ok x, w')) (hn : n.toNat = xs.length)
    (hlt : xs.length < 2 ^ 61) : ∃ b, x = put b ∧ ArrayHolds b xs 0 := by
  obtain ⟨b, hb, hok, rfl⟩ := allocArray_ok h
  refine ⟨b, rfl, ?_⟩
  cases b with
  | none =>
    have hzero : n = 0 := by
      by_contra hne
      exact hok ⟨UInt64.pos_iff_ne_zero.mpr hne, rfl⟩
    rw [hzero, UInt64.toNat_zero] at hn
    exact .inl (List.eq_nil_of_length_eq_zero hn.symm)
  | some b => exact .fresh (hm w _ b w' hb) hn hlt

section Problems

variable {m : ProblemMessage} {c : Problem} {d d' d'' : ProblemDraft} {i : UInt16}

def ProblemT.HasNumber (p : ProblemT) (c : Problem) : Nat → Prop
  | 0 => p.type = c.type
  | 1 => p.optm = c.optm
  | 2 => p.rows = c.rows
  | 3 => p.sizeX = c.sizeX
  | 4 => p.sizeY = c.sizeY ∧ ArrayHolds p.data c.data 0
  | 5 => p.cvSize.toNat = c.cvData.length ∧ ArrayHolds p.cvData c.cvData 0
  | 6 => p.testSize.toNat = c.testData.length ∧ ArrayHolds p.testData c.testData 0
  | 7 => p.stateSize.toNat = c.state.length ∧ ArrayHolds p.state c.state 0
  | _ => True

structure ProblemDraft.Begins (d : ProblemDraft) (c : Problem) (n : Nat) : Prop where
  numbers : ∀ k < n, d.val.HasNumber c k
  unread : n ≤ 6 → d.val.testData = none

namespace ProblemDraft.Begins

theorem next (hold : ∀ k < n, d.val.HasNumber c k) (hnew : d.val.HasNumber c n)
    (hunread : n + 1 ≤ 6 → d.val.testData = none) : d.Begins c (n + 1) := by
  refine ⟨fun k hk => ?_, hunread⟩
  rcases Nat.lt_succ_iff_lt_or_eq.mp hk with hk | rfl
  · exact hold k hk
  · exact hnew

theorem assign (hm : m.WellFormed) (hshort : (m.problem atof).Short) (hexact : env.MallocExact)
    (h : d.Begins (m.problem atof) i.toNat) (hi : i.toNat ≤ 7) (ht : m.header[i.toNat]? = some t)
    (ha : assignHeader env w i (atoul t) d = (.ok d', w')) :
    d'.Begins (m.problem atof) (i.toNat + 1) := by
  have hnumeral : Numeral t := hm.header t (List.mem_of_getElem? ht)
  have hmax := hnumeral.value
  have hdata : (m.problem atof).data.length = _ := (List.length_map _).trans hm.points
  have hcv : (m.problem atof).cvData.length = _ := (List.length_map _).trans hm.cvSize
  have htest : (m.problem atof).testData.length = _ := (List.length_map _).trans hm.testSize
  have hstate : (m.problem atof).state.length = _ := (List.length_map _).trans hm.stateSize
  have hsize (n : Nat) (hn : n < 2 ^ 63) : (UInt64.ofNat n).toNat = n := by
    rw [UInt64.toNat_ofNat']
    omega
  unfold Problem.Short Problem.count at hshort
  rw [hnumeral.atoul] at ha
  unfold assignHeader at ha
  split at ha
  · next hi =>
    cases ha
    rw [hi] at h ht ⊢
    obtain rfl := Option.some.inj ht
    exact next (fun k hk => absurd hk (Nat.not_lt_zero k)) (UInt64.toUInt32_ofNat' _)
      fun _ => h.unread (by decide)
  · next hi =>
    cases ha
    rw [hi] at h ht ⊢
    obtain rfl := Option.some.inj ht
    refine next ?_ (UInt64.toUInt32_ofNat' _) fun _ => h.unread (by decide)
    intro k hk
    interval_cases k
    exact h.numbers 0 (by decide)
  · next hi =>
    cases ha
    rw [hi] at h ht ⊢
    obtain rfl := Option.some.inj ht
    refine next ?_ rfl fun _ => h.unread (by decide)
    intro k hk
    interval_cases k <;> exact h.numbers _ hk
  · next hi =>
    cases ha
    rw [hi] at h ht ⊢
    obtain rfl := Option.some.inj ht
    refine next ?_ rfl fun _ => h.unread (by decide)
    intro k hk
    interval_cases k <;> exact h.numbers _ hk
  · next hi =>
    rw [hi] at h ht ⊢
    obtain rfl := Option.some.inj ht
    have hrows : d.val.rows = UInt64.ofNat (decimal m.rows) := h.numbers 2 (by decide)
    have hsizeX : d.val.sizeX = UInt64.ofNat (decimal m.sizeX) := h.numbers 3 (by decide)
    rw [hrows, hsizeX, ← UInt64.ofNat_add, ← UInt64.ofNat_mul] at ha
    have hn := (hsize _ hm.points_lt).trans hdata.symm
    obtain ⟨b, rfl, hb⟩ := allocArray_holds hexact ha hn (by omega)
    refine next ?_ ⟨rfl, hb⟩ fun _ => h.unread (by decide)
    intro k hk
    interval_cases k
    · exact h.numbers 0 (by decide)
    · exact h.numbers 1 (by decide)
    · exact hrows
    · exact hsizeX
  · next hi =>
    rw [hi] at h ht ⊢
    obtain rfl := Option.some.inj ht
    have hn := (hsize (decimal m.cvSize) (by omega)).trans hcv.symm
    obtain ⟨b, rfl, hb⟩ := allocArray_holds hexact ha hn (by omega)
    refine next ?_ ⟨hn, hb⟩ fun _ => h.unread (by decide)
    intro k hk
    interval_cases k <;> exact h.numbers _ hk
  · next hi =>
    rw [hi] at h ht ⊢
    obtain rfl := Option.some.inj ht
    have hn := (hsize (decimal m.testSize) (by omega)).trans htest.symm
    obtain ⟨b, rfl, hb⟩ := allocArray_holds hexact ha hn (by omega)
    refine next ?_ ⟨hn, hb⟩ fun hle => absurd hle (by decide)
    intro k hk
    interval_cases k <;> exact h.numbers _ hk
  · next hi =>
    rw [hi] at h ht ⊢
    obtain rfl := Option.some.inj ht
    have hn := (hsize (decimal m.stateSize) (by omega)).trans hstate.symm
    obtain ⟨b, rfl, hb⟩ := allocArray_holds hexact ha hn (by omega)
    refine next ?_ ⟨hn, hb⟩ fun hle => absurd hle (by decide)
    intro k hk
    interval_cases k <;> exact h.numbers _ hk
  · next h0 h1 h2 h3 h4 h5 h6 h7 =>
    simp only [imp_false] at h0 h1 h2 h3 h4 h5 h6 h7
    omega

theorem store (h : d.Begins c (i.toNat + 1)) (hi : i.toNat ≤ 7) (hcv : c.cvData.length < 2 ^ 31)
    (hs : storeIndex i.toUInt64 v d = some d') : d' = d := by
  have hext := toNat_extend i
  have h7 : (7 : UInt64).toNat = 7 := rfl
  have hfirst : ¬ (i.toUInt64 > 7 ∧ i.toUInt64 < 8 + d.val.cvSize) := by
    rintro ⟨hgt, _⟩
    have := UInt64.lt_iff_toNat_lt.mp hgt
    omega
  rw [storeIndex_eq, if_neg hfirst, Option.bind_some] at hs
  split at hs
  · next hin =>
    by_cases hle : i.toNat + 1 ≤ 6
    · rw [storeTestData, h.unread hle] at hs
      cases hs
    · have hsize : d.val.cvSize.toNat = c.cvData.length := (h.numbers 5 (by omega)).1
      have hgt := UInt64.lt_iff_toNat_lt.mp hin.1
      rw [UInt64.toNat_add, h7] at hgt
      omega
  · exact (Option.some.inj hs).symm

end ProblemDraft.Begins

namespace ProblemMessage

variable {s u : Parser W} {e : Heard W}

end ProblemMessage

end Problems

section Answers

variable {m : AnswerMessage} {d d' : AnswerDraft} {i : UInt16} {s u : Parser W} {e : Heard W}

structure AnswerDraft.Begins (d : AnswerDraft) (m : AnswerMessage) (atof : CString → UInt64)
    (n : Nat) : Prop where
  sizeX : 2 ≤ n → d.val.sizeX = UInt64.ofNat (decimal m.sizeX)
  sizeY : 3 ≤ n → d.val.sizeY = UInt64.ofNat (decimal m.sizeY)
  data : 3 ≤ n → ArrayHolds d.val.data (m.data.map atof) (n - 3)

theorem AnswerMessage.WellFormed.outputs_toNat (hm : m.WellFormed) :
    (UInt64.ofNat (decimal m.sizeX) + UInt64.ofNat (decimal m.sizeY)).toNat = m.data.length := by
  have hX := hm.sizeX.value
  have hY := hm.sizeY.value
  rw [← UInt64.ofNat_add, UInt64.toNat_ofNat', hm.size]
  omega

theorem AnswerDraft.Begins.assign {w : W} (hm : m.WellFormed) (hexact : env.MallocExact)
    (h : d.Begins m atof i.toNat) (hi : i.toNat ≤ 2) (ht : m.numbers[i.toNat]? = some t)
    (ha : assignAnswer env w i (atoul t) d = some (.ok d', w')) :
    d'.Begins m atof (i.toNat + 1) := by
  unfold assignAnswer at ha
  split at ha
  · next hi =>
    obtain ⟨problem, _, ha⟩ := Option.map_eq_some_iff.mp ha
    rw [hi]
    cases problem with
    | none => cases ha
    | some p =>
      cases ha
      exact ⟨fun hle => absurd hle (by decide), fun hle => absurd hle (by decide),
        fun hle => absurd hle (by decide)⟩
  · next hi =>
    cases ha
    rw [hi] at ht ⊢
    obtain rfl := Option.some.inj ht
    exact ⟨fun _ => hm.sizeX.atoul, fun hle => absurd hle (by decide),
      fun hle => absurd hle (by decide)⟩
  · next hi =>
    rw [hi] at h ht ⊢
    obtain rfl := Option.some.inj ht
    have hsizeX := h.sizeX (by decide)
    have hlen : (m.data.map atof).length = m.data.length := List.length_map _
    have hshort := hm.short
    rw [hsizeX, hm.sizeY.atoul] at ha
    generalize hr : allocArray env w _ _ _ = r at ha
    obtain ⟨r, w''⟩ := r
    cases r with
    | error fs => cases ha
    | ok d₁ =>
      cases ha
      have hn := hm.outputs_toNat.trans hlen.symm
      have hlt : (m.data.map atof).length < 2 ^ 61 := by
        simp only [AnswerMessage.numbers, List.length_cons] at hshort
        omega
      obtain ⟨b, rfl, hb⟩ := allocArray_holds hexact hr hn hlt
      exact ⟨fun _ => hsizeX, fun _ => rfl, fun _ => hb⟩
  · next h0 h1 h2 =>
    simp only [imp_false] at h0 h1 h2
    omega

theorem AnswerDraft.Begins.store (hm : m.WellFormed) (h : d.Begins m atof i.toNat)
    (hi : 3 ≤ i.toNat) (ht : m.numbers[i.toNat]? = some t) :
    FloatText t ∧ ∃ d', storeOutput i.toUInt64 (atof t) d = some d' ∧
      d'.Begins m atof (i.toNat + 1) ∧ d'.total.toNat = m.numbers.length := by
  have hnumbers : m.numbers = [m.problem, m.sizeX, m.sizeY] ++ m.data := rfl
  have hlength : m.numbers.length = 3 + m.data.length := by
    rw [hnumbers, List.length_append]
    rfl
  have hlt : i.toNat < m.numbers.length := (List.getElem?_eq_some_iff.mp ht).1
  rw [hnumbers, List.getElem?_append_right hi] at ht
  have hext := toNat_extend i
  have hsum := hm.outputs_toNat
  rw [← h.sizeX (by omega), ← h.sizeY hi] at hsum
  have hshort := hm.short
  have htotal : (3 + d.val.sizeX + d.val.sizeY).toNat = m.numbers.length := by
    have h3 : (3 : UInt64).toNat = 3 := rfl
    rw [UInt64.add_assoc, UInt64.toNat_add, hsum, hlength, h3]
    omega
  have hin : i.toUInt64 > 2 ∧ i.toUInt64 < 3 + d.val.sizeX + d.val.sizeY := by
    rw [gt_iff_lt, UInt64.lt_iff_toNat_lt, UInt64.lt_iff_toNat_lt, htotal, hext]
    exact ⟨hi, hlt⟩
  have hv : (m.data.map atof)[i.toNat - 3]? = some (atof t) := by
    rw [List.getElem?_map]
    exact congrArg (Option.map atof) ht
  have hsub : (i.toUInt64 - 3).toNat = i.toNat - 3 := by
    rw [toNat_sub (b := 3) (hext.symm ▸ hi), hext]
    rfl
  obtain ⟨b, b', hb, hst, hnext⟩ := (h.data hi).store hv hsub
  have hstore : storeOutput i.toUInt64 (atof t) d =
      some (d.assign (.data (i.toUInt64 - 3)) { d.val with data := some b' }) := by
    simp only [storeOutput, if_pos hin, hb, hst, Option.bind_eq_bind, Option.bind_some]
  refine ⟨hm.data t (List.mem_of_getElem? ht), _, hstore, ⟨fun _ => h.sizeX (by omega),
    fun _ => h.sizeY hi, fun _ => ?_⟩, htotal⟩
  rwa [show i.toNat + 1 - 3 = i.toNat - 3 + 1 by omega]

namespace AnswerMessage

end AnswerMessage

end Answers

section Messages

variable {s u : Parser W} {e : Heard W} {es : List (Heard W)}

end Messages

end Aiqb
