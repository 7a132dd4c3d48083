import Aiqb.DraftReceived
import Aiqb.Numerals
import Aiqb.ParserLog

namespace Aiqb
set_option autoImplicit true

structure ProblemMessage where
  type : CString
  optm : CString
  rows : CString
  sizeX : CString
  sizeY : CString
  cvSize : CString
  testSize : CString
  stateSize : CString
  cvData : List CString
  testData : List CString
  data : List CString
  state : List CString

namespace ProblemMessage

def header (m : ProblemMessage) : List CString :=
  [m.type, m.optm, m.rows, m.sizeX, m.sizeY, m.cvSize, m.testSize, m.stateSize]

def arrays (m : ProblemMessage) : List CString := m.cvData ++ m.testData ++ m.data ++ m.state

def tokens (m : ProblemMessage) : List CString :=
  tokenRegisterProblem :: (m.header ++ m.arrays)

def problem (m : ProblemMessage) (atof : CString → UInt64) : Problem where
  type := UInt32.ofNat (decimal m.type)
  optm := UInt32.ofNat (decimal m.optm)
  rows := UInt64.ofNat (decimal m.rows)
  sizeX := UInt64.ofNat (decimal m.sizeX)
  sizeY := UInt64.ofNat (decimal m.sizeY)
  cvData := m.cvData.map fun t => UInt64.ofNat (decimal t)
  testData := m.testData.map fun t => UInt64.ofNat (decimal t)
  data := m.data.map atof
  state := m.state.map atof

structure WellFormed (m : ProblemMessage) : Prop where
  header : ∀ t ∈ m.header, Numeral t
  cvData : ∀ t ∈ m.cvData, Numeral t
  testData : ∀ t ∈ m.testData, Numeral t
  data : ∀ t ∈ m.data, FloatText t
  state : ∀ t ∈ m.state, FloatText t
  cvSize : m.cvData.length = decimal m.cvSize
  testSize : m.testData.length = decimal m.testSize
  points : m.data.length = decimal m.rows * (decimal m.sizeX + decimal m.sizeY)
  stateSize : m.state.length = decimal m.stateSize
  nonempty : 1 ≤ m.data.length + m.state.length

end ProblemMessage

def spell (ts : List (CString × List UInt8)) : List UInt8 := ts.flatMap fun t => t.1 ++ t.2

structure Spells (ts : List (CString × List UInt8)) (tokens : List CString) : Prop where
  tokens : ts.map Prod.fst = tokens
  separators : ∀ t ∈ ts, Separators t.2

/-- The surroundings of the claim: a handler that returns, a zero-filled structure, and arrays that
can be allocated. -/
structure Env.Serves (env : Env W) (m : ProblemMessage) : Prop where
  handler : ∃ register, env.handler.bind ParserHandle.registerProblem = some register ∧
    ∀ w p v, ∃ id w', register w p v = some (id, w')
  zeroed : ∀ w, ∃ ptr w', env.mallocProblem w = (some (ptr, .zero), w')
  allocates : ∀ n ∈ [decimal m.rows * (decimal m.sizeX + decimal m.sizeY), decimal m.cvSize,
      decimal m.testSize, decimal m.stateSize], n ≠ 0 →
    ∀ w, ∃ b w', env.malloc w (UInt64.ofNat n * 8) = (some b, w') ∧ b.bytes = UInt64.ofNat n * 8

/-- The problem was registered, once and as it was sent, and the parser is idle again. -/
structure RegisteredIntact (m : ProblemMessage) (env : Env W) (s : Parser W) : Prop where
  registered : ∃ d, registeredProblems s.log = [d] ∧ d.val.Carries (m.problem env.atof)
  between : s.Between
  idle : s.state = .idle

section Parsing

variable {W : Type} {env : Env W} {s : Parser W} {d d' : ProblemDraft} {ps : List ProblemDraft}

theorem parse_registerProblem (hb : s.Between) (hsep : Separators seps)
    (hmalloc : env.mallocProblem s.world = (some (ptr, .zero), w)) :
    (parse env s (tokenRegisterProblem ++ seps)).Receives ⟨ptr, .zero, fun _ => false⟩
        (registeredProblems s.log) ∧
      (parse env s (tokenRegisterProblem ++ seps)).index = 0 := by
  have hordinary : tokenRegisterProblem.all isOrdinary := by decide
  have htoken := parse_token env (t := tokenRegisterProblem) hb nofun
    (List.all_eq_true.mp hordinary) (by decide) hsep.ne_nil hsep.all ⟨0, 11, 0, 11⟩ rfl
  rw [analyse_letters (by decide)] at htoken
  · simp only [commandToken, if_true, registerProblemCommand, Parser.emit_world, hmalloc] at htoken
    rw [htoken _ rfl hb.reading]
    have hlog : registeredProblems (s.log ++ [.printed .any tokenRegisterProblem] ++
        [.printed .command tokenRegisterProblem]) = registeredProblems s.log := by
      rw [registered_other rfl, registered_other rfl]
    exact ⟨⟨⟨hb.idle, hb.reading, rfl, rfl⟩, rfl, hlog⟩, rfl⟩
  · exact hb.reading

theorem storeIndex_header {i : UInt16} (hi : i.toNat ≤ 7) (hc : d.val.cvSize.toNat < 2 ^ 31)
    (v : UInt64) : storeIndex i.toUInt64 v d = some d := by
  have hext := toNat_extend i
  have h7 : (7 : UInt64).toNat = 7 := rfl
  have h1 : ¬ (i.toUInt64 > 7 ∧ i.toUInt64 < 8 + d.val.cvSize) := by
    rintro ⟨h, _⟩
    have := UInt64.lt_iff_toNat_lt.mp h
    omega
  have h2 : ¬ (i.toUInt64 > 7 + d.val.cvSize ∧ i.toUInt64 < 8 + d.val.cvSize + d.val.testSize) := by
    rintro ⟨h, _⟩
    have := UInt64.lt_iff_toNat_lt.mp h
    rw [UInt64.toNat_add, h7] at this
    omega
  simp only [storeIndex, if_neg h1, if_neg h2, Option.bind_eq_bind, Option.bind_some]

theorem parse_header (env : Env W) {k : UInt16} (hs : s.Receives d ps) (hk : s.index = k)
    (ht : Numeral t)
    (hsep : Separators seps) (hk7 : k.toNat ≤ 7)
    (hassign : assignHeader env s.world k (UInt64.ofNat (decimal t)) d = (.ok d', w))
    (hc : d'.val.cvSize.toNat < 2 ^ 31) :
    (parse env s (t ++ seps)).Receives d' ps ∧ (parse env s (t ++ seps)).index = k + 1 := by
  rw [← ht.atoul, ← hk] at hassign
  have hstore := storeIndex_header (i := s.index) (by rw [hk]; exact hk7) hc (atoul t)
  obtain ⟨hr, hi, _⟩ := parse_numeral hs ht hsep hassign hstore
  exact ⟨hr, by rw [hi, hk]⟩

theorem assignHeader_cvSize (env : Env W) (w : W) (v : UInt64) (d : ProblemDraft) :
    assignHeader env w 5 v d =
      allocArray env w v
        (fun b =>
          (d.assign .cvSize { d.val with cvSize := v, cvData := b }).renew ProblemSlot.isCvData)
        [.array d.val.testData, .array d.val.data, .array d.val.state, .problem d.ptr] := rfl

theorem assignHeader_testSize (env : Env W) (w : W) (v : UInt64) (d : ProblemDraft) :
    assignHeader env w 6 v d =
      allocArray env w v
        (fun b =>
          (d.assign .testSize { d.val with testSize := v, testData := b }).renew
            ProblemSlot.isTestData)
        [.array d.val.cvData, .array d.val.data, .array d.val.state, .problem d.ptr] := rfl

theorem assignHeader_stateSize (env : Env W) (w : W) (v : UInt64) (d : ProblemDraft) :
    assignHeader env w 7 v d =
      allocArray env w v
        (fun b => (d.assign .stateSize { d.val with stateSize := v, state := b }).renew
          ProblemSlot.isState)
        [.array d.val.cvData, .array d.val.testData, .array d.val.data, .problem d.ptr] := rfl

theorem allocArray_room {n : Nat}
    (halloc : n ≠ 0 → ∀ w, ∃ b w', env.malloc w (UInt64.ofNat n * 8) = (some b, w') ∧
      b.bytes = UInt64.ofNat n * 8)
    (w : W) :
    ∃ a w', (∀ (put : Option Block → ProblemDraft) (fs : List Freed),
        allocArray env w (UInt64.ofNat n) put fs = (.ok (put a), w')) ∧
      ∀ xs : List UInt64, xs.length = n → n < 2 ^ 61 → ArrayHolds a xs 0 := by
  by_cases h0 : n = 0
  · subst h0
    refine ⟨(env.malloc w 0).1, (env.malloc w 0).2, ?_, ?_⟩
    · intro put fs
      rfl
    · intro xs hxs _
      exact .inl (List.eq_nil_of_length_eq_zero hxs)
  · obtain ⟨b, w', hb, hbytes⟩ := halloc h0 w
    refine ⟨some b, w', ?_, ?_⟩
    · intro put fs
      simp only [allocArray, hb, Option.isNone_some, Bool.false_eq_true, and_false, if_false]
    · intro xs hxs hlt
      apply ArrayHolds.fresh hbytes _ (hxs ▸ hlt)
      rw [UInt64.toNat_ofNat', hxs]
      omega

theorem Spells.cons {ts : List (CString × List UInt8)} {us : List CString}
    (h : Spells ts (t :: us)) :
    ∃ seps ts', ts = (t, seps) :: ts' ∧ Separators seps ∧ Spells ts' us := by
  obtain ⟨⟨t', seps⟩, ts', rfl, rfl, htokens⟩ := List.map_eq_cons_iff.mp h.tokens
  exact ⟨seps, ts', rfl, h.separators _ List.mem_cons_self, htokens,
    fun u hu => h.separators u (List.mem_cons_of_mem _ hu)⟩

theorem Spells.append {ts : List (CString × List UInt8)} (h : Spells ts (us ++ vs)) :
    ∃ ts₁ ts₂, ts = ts₁ ++ ts₂ ∧ Spells ts₁ us ∧ Spells ts₂ vs := by
  obtain ⟨ts₁, ts₂, rfl, h₁, h₂⟩ := List.map_eq_append_iff.mp h.tokens
  exact ⟨ts₁, ts₂, rfl, ⟨h₁, fun u hu => h.separators u (List.mem_append_left _ hu)⟩,
    ⟨h₂, fun u hu => h.separators u (List.mem_append_right _ hu)⟩⟩

theorem parse_spell_nil (s : Parser W) : parse env s (spell []) = s := rfl

theorem parse_spell_cons (t : CString × List UInt8) (ts : List (CString × List UInt8))
    (s : Parser W) :
    parse env s (spell (t :: ts)) = parse env (parse env s (t.1 ++ t.2)) (spell ts) := by
  rw [spell, List.flatMap_cons, parse_append]
  rfl

theorem parse_spell_append (ts us : List (CString × List UInt8)) (s : Parser W) :
    parse env s (spell (ts ++ us)) = parse env (parse env s (spell ts)) (spell us) := by
  rw [spell, List.flatMap_append, parse_append]
  rfl

variable {m : ProblemMessage}

theorem parse_numbers (env : Env W) (hm : m.WellFormed) (hs : s.Receives ⟨ptr, .zero, f⟩ ps)
    (hi : s.index = 0) (hts : Spells ts [m.type, m.optm, m.rows, m.sizeX]) :
    ∃ d, (parse env s (spell ts)).Receives d ps ∧ (parse env s (spell ts)).index = 4 ∧
      d.val =
        { ProblemT.zero with
          type := UInt32.ofNat (decimal m.type)
          optm := UInt32.ofNat (decimal m.optm)
          rows := UInt64.ofNat (decimal m.rows)
          sizeX := UInt64.ofNat (decimal m.sizeX) } := by
  obtain ⟨s₀, ts, rfl, h₀, hts⟩ := hts.cons
  obtain ⟨s₁, ts, rfl, h₁, hts⟩ := hts.cons
  obtain ⟨s₂, ts, rfl, h₂, hts⟩ := hts.cons
  obtain ⟨s₃, ts, rfl, h₃, hts⟩ := hts.cons
  obtain rfl := List.map_eq_nil_iff.mp hts.tokens
  have hmem : ∀ t ∈ [m.type, m.optm, m.rows, m.sizeX], Numeral t :=
    fun t ht => hm.header t (List.mem_append_left [m.sizeY, m.cvSize, m.testSize, m.stateSize] ht)
  simp only [List.forall_mem_cons] at hmem
  have hc : (0 : UInt64).toNat < 2 ^ 31 := by decide
  obtain ⟨hs, hi⟩ := parse_header env hs hi hmem.1 h₀ (by decide) rfl hc
  obtain ⟨hs, hi⟩ := parse_header env hs hi hmem.2.1 h₁ (by decide) rfl hc
  obtain ⟨hs, hi⟩ := parse_header env hs hi hmem.2.2.1 h₂ (by decide) rfl hc
  obtain ⟨hs, hi⟩ := parse_header env hs hi hmem.2.2.2.1 h₃ (by decide) rfl hc
  simp only [parse_spell_cons, parse_spell_nil]
  refine ⟨_, hs, hi, ?_⟩
  simp only [ProblemDraft.assign, UInt64.toUInt32_ofNat']

theorem ProblemMessage.WellFormed.points_lt (hm : m.WellFormed) :
    decimal m.rows * (decimal m.sizeX + decimal m.sizeY) < 2 ^ 63 := by
  have hlt (t) (ht : t ∈ m.header) : decimal t < 2 ^ 31 := (hm.header t ht).value
  have hr := hlt m.rows (by simp [ProblemMessage.header])
  have hx := hlt m.sizeX (by simp [ProblemMessage.header])
  have hy := hlt m.sizeY (by simp [ProblemMessage.header])
  calc decimal m.rows * (decimal m.sizeX + decimal m.sizeY)
      ≤ (2 ^ 31 - 1) * (2 ^ 32 - 2) := Nat.mul_le_mul (by omega) (by omega)
    _ < 2 ^ 63 := by decide

theorem ProblemMessage.WellFormed.size_toNat (hm : m.WellFormed) (ht : t ∈ m.header) :
    (UInt64.ofNat (decimal t)).toNat = decimal t := by
  have hv := (hm.header t ht).value
  rw [UInt64.toNat_ofNat']
  omega

theorem ProblemMessage.WellFormed.fits {p : ProblemT} (hm : m.WellFormed)
    (htype : p.type = UInt32.ofNat (decimal m.type))
    (hoptm : p.optm = UInt32.ofNat (decimal m.optm))
    (hrows : p.rows = UInt64.ofNat (decimal m.rows))
    (hsizeX : p.sizeX = UInt64.ofNat (decimal m.sizeX))
    (hsizeY : p.sizeY = UInt64.ofNat (decimal m.sizeY))
    (hcvSize : p.cvSize = UInt64.ofNat (decimal m.cvSize))
    (htestSize : p.testSize = UInt64.ofNat (decimal m.testSize))
    (hstateSize : p.stateSize = UInt64.ofNat (decimal m.stateSize)) :
    p.Fits (m.problem atof) where
  type := htype
  optm := hoptm
  rows := hrows
  sizeX := hsizeX
  sizeY := hsizeY
  cvSize := by
    rw [hcvSize, hm.size_toNat (by simp [ProblemMessage.header]), ← hm.cvSize]
    exact (List.length_map _).symm
  testSize := by
    rw [htestSize, hm.size_toNat (by simp [ProblemMessage.header]), ← hm.testSize]
    exact (List.length_map _).symm
  points := by
    rw [ProblemT.points, hrows, hsizeX, hsizeY, ← UInt64.ofNat_add, ← UInt64.ofNat_mul,
      UInt64.toNat_ofNat', Nat.mod_eq_of_lt (by have := hm.points_lt; omega), ← hm.points]
    exact (List.length_map _).symm
  stateSize := by
    rw [hstateSize, hm.size_toNat (by simp [ProblemMessage.header]), ← hm.stateSize]
    exact (List.length_map _).symm

theorem parse_sizes (hm : m.WellFormed) (henv : env.Serves m)
    (hshort : (m.problem env.atof).Short) (hs : s.Receives d ps) (hi : s.index = 4)
    (hd : d.val =
      { ProblemT.zero with
        type := UInt32.ofNat (decimal m.type)
        optm := UInt32.ofNat (decimal m.optm)
        rows := UInt64.ofNat (decimal m.rows)
        sizeX := UInt64.ofNat (decimal m.sizeX) })
    (hts : Spells ts [m.sizeY, m.cvSize, m.testSize, m.stateSize]) :
    ∃ d', (parse env s (spell ts)).Receives d' ps ∧ (parse env s (spell ts)).index = 8 ∧
      d'.Received (m.problem env.atof) 0 := by
  obtain ⟨s₄, ts, rfl, h₄, hts⟩ := hts.cons
  obtain ⟨s₅, ts, rfl, h₅, hts⟩ := hts.cons
  obtain ⟨s₆, ts, rfl, h₆, hts⟩ := hts.cons
  obtain ⟨s₇, ts, rfl, h₇, hts⟩ := hts.cons
  obtain rfl := List.map_eq_nil_iff.mp hts.tokens
  obtain ⟨n₄, n₅, n₆, n₇, _⟩ : Numeral m.sizeY ∧ Numeral m.cvSize ∧ Numeral m.testSize ∧
      Numeral m.stateSize ∧ True := by
    have hmem := hm.header
    simp only [ProblemMessage.header, List.forall_mem_cons] at hmem
    exact ⟨hmem.2.2.2.2.1, hmem.2.2.2.2.2.1, hmem.2.2.2.2.2.2.1, hmem.2.2.2.2.2.2.2.1, trivial⟩
  have hroom := henv.allocates
  simp only [List.forall_mem_cons] at hroom
  have hlen : (m.problem env.atof).data.length = _ := (List.length_map _).trans hm.points
  have hlenc : (m.problem env.atof).cvData.length = _ := (List.length_map _).trans hm.cvSize
  have hlent : (m.problem env.atof).testData.length = _ := (List.length_map _).trans hm.testSize
  have hlens : (m.problem env.atof).state.length = _ := (List.length_map _).trans hm.stateSize
  have hsmall : (UInt64.ofNat (decimal m.cvSize)).toNat < 2 ^ 31 := by
    rw [hm.size_toNat (by simp [ProblemMessage.header])]
    exact n₅.value
  have h0 : d.val.cvSize = 0 := by
    rw [hd]
    rfl
  have hsum : assignHeader env s.world 4 (UInt64.ofNat (decimal m.sizeY)) d =
      allocArray env s.world
        (UInt64.ofNat (decimal m.rows * (decimal m.sizeX + decimal m.sizeY)))
        (fun b =>
          (d.assign .sizeY
            { d.val with sizeY := UInt64.ofNat (decimal m.sizeY), data := b }).renew
              ProblemSlot.isData)
        [.array d.val.cvData, .array d.val.testData, .array d.val.state, .problem d.ptr] := by
    rw [UInt64.ofNat_mul, UInt64.ofNat_add]
    simp only [assignHeader, UInt16.reduceToNat, hd]
  unfold Problem.Short Problem.count at hshort
  obtain ⟨a₄, w₄, e₄, r₄⟩ := allocArray_room hroom.1 s.world
  rw [e₄] at hsum
  obtain ⟨hs, hi⟩ := parse_header env hs hi n₄ h₄ (by decide) hsum (h0 ▸ (by decide))
  simp only [parse_spell_cons]
  generalize parse env s (m.sizeY ++ s₄) = s at hs hi
  obtain ⟨a₅, w₅, e₅, r₅⟩ := allocArray_room hroom.2.1 s.world
  obtain ⟨hs, hi⟩ := parse_header env hs hi n₅ h₅ (by decide)
    ((assignHeader_cvSize env _ _ _).trans (e₅ _ _)) hsmall
  generalize parse env s (m.cvSize ++ s₅) = s at hs hi
  obtain ⟨a₆, w₆, e₆, r₆⟩ := allocArray_room hroom.2.2.1 s.world
  obtain ⟨hs, hi⟩ := parse_header env hs hi n₆ h₆ (by decide)
    ((assignHeader_testSize env _ _ _).trans (e₆ _ _)) hsmall
  generalize parse env s (m.testSize ++ s₆) = s at hs hi
  obtain ⟨a₇, w₇, e₇, r₇⟩ := allocArray_room hroom.2.2.2.1 s.world
  obtain ⟨hs, hi⟩ := parse_header env hs hi n₇ h₇ (by decide)
    ((assignHeader_stateSize env _ _ _).trans (e₇ _ _)) hsmall
  refine ⟨_, hs, hi, ⟨hm.fits ?_ ?_ ?_ ?_ rfl rfl rfl rfl, ?_, ?_, ?_, ?_⟩⟩
  · exact congrArg ProblemT.type hd
  · exact congrArg ProblemT.optm hd
  · exact congrArg ProblemT.rows hd
  · exact congrArg ProblemT.sizeX hd
  · exact r₅ _ hlenc (by omega)
  · rw [Nat.zero_sub]
    exact r₆ _ hlent (by omega)
  · rw [Nat.zero_sub, Nat.zero_sub]
    exact r₄ _ hlen (by omega)
  · rw [Nat.zero_sub, Nat.zero_sub, Nat.zero_sub]
    exact r₇ _ hlens (by omega)

theorem parse_index (env : Env W) (hm : m.WellFormed) (hshort : (m.problem env.atof).Short)
    (hs : s.Receives d ps) (hi : s.index.toNat = 8 + n)
    (hd : d.Received (m.problem env.atof) n) (ht : m.arrays[n]? = some t) (hsep : Separators seps)
    (hn : n < m.cvData.length + m.testData.length) :
    ∃ d', (parse env s (t ++ seps)).Receives d' ps ∧
      (parse env s (t ++ seps)).index = s.index + 1 ∧
      d'.Received (m.problem env.atof) (n + 1) := by
  have hlenc : (m.problem env.atof).cvData.length = m.cvData.length := List.length_map _
  rw [ProblemMessage.arrays, List.append_assoc, List.getElem?_append_left
    (by rw [List.length_append]; exact hn)] at ht
  have hnum : Numeral t := by
    rcases List.mem_append.mp (List.mem_of_getElem? ht) with hmem | hmem
    · exact hm.cvData t hmem
    · exact hm.testData t hmem
  have hstore : ∃ d', storeIndex s.index.toUInt64 (atoul t) d = some d' ∧
      d'.Received (m.problem env.atof) (n + 1) := by
    by_cases hc : n < m.cvData.length
    · rw [List.getElem?_append_left hc] at ht
      apply hd.store_cvData hshort _ hi
      rw [ProblemMessage.problem, List.getElem?_map, ht, hnum.atoul]
      rfl
    · rw [List.getElem?_append_right (Nat.le_of_not_lt hc)] at ht
      apply hd.store_testData hshort (hlenc ▸ Nat.le_of_not_lt hc) _ hi
      rw [hlenc, ProblemMessage.problem, List.getElem?_map, ht, hnum.atoul]
      rfl
  obtain ⟨d', hstore, hd'⟩ := hstore
  obtain ⟨hr, hi', _⟩ := parse_numeral hs hnum hsep (assignHeader_ge (by omega)) hstore
  exact ⟨d', hr, hi', hd'⟩

theorem store_point (env : Env W) (hm : m.WellFormed) (hshort : (m.problem env.atof).Short)
    (hi : s.index.toNat = 8 + n) (hd : d.Received (m.problem env.atof) n)
    (ht : m.arrays[n]? = some t) (hn : m.cvData.length + m.testData.length ≤ n) :
    FloatText t ∧ ∃ d', storePoint s.index.toUInt64 (env.atof t) d = some d' ∧
      d'.Received (m.problem env.atof) (n + 1) := by
  have hlenc : (m.problem env.atof).cvData.length = m.cvData.length := List.length_map _
  have hlent : (m.problem env.atof).testData.length = m.testData.length := List.length_map _
  have hlen : (m.problem env.atof).data.length = m.data.length := List.length_map _
  rw [ProblemMessage.arrays, List.append_assoc, List.getElem?_append_right
    (by rw [List.length_append]; exact hn), List.length_append, ← Nat.sub_sub] at ht
  have hfloat : FloatText t := by
    rcases List.mem_append.mp (List.mem_of_getElem? ht) with hmem | hmem
    · exact hm.data t hmem
    · exact hm.state t hmem
  refine ⟨hfloat, ?_⟩
  by_cases hp : n - m.cvData.length - m.testData.length < m.data.length
  · rw [List.getElem?_append_left hp] at ht
    apply hd.store_data hshort (by rw [hlenc, hlent]; exact hn) _ hi
    rw [hlenc, hlent, ProblemMessage.problem, List.getElem?_map, ht]
    rfl
  · rw [List.getElem?_append_right (Nat.le_of_not_lt hp)] at ht
    apply hd.store_state hshort (by rw [hlenc, hlent, hlen]; omega) _ hi
    rw [hlenc, hlent, hlen, ProblemMessage.problem, List.getElem?_map, ht]
    rfl

/-- The rest of the arrays completes the problem. -/
theorem parse_arrays (env : Env W) (hm : m.WellFormed) (hshort : (m.problem env.atof).Short)
    (hhandler : env.handler.bind ParserHandle.registerProblem = some register)
    (hcall : ∀ w p v, ∃ id w', register w p v = some (id, w'))
    (hs : s.Receives d []) (hi : s.index.toNat = 8 + n)
    (hd : d.Received (m.problem env.atof) n) (hts : Spells ts (m.arrays.drop n))
    (hn : n < m.arrays.length) : RegisteredIntact m env (parse env s (spell ts)) := by
  have hlenc : (m.problem env.atof).cvData.length = m.cvData.length := List.length_map _
  have hlent : (m.problem env.atof).testData.length = m.testData.length := List.length_map _
  have hlen : (m.problem env.atof).data.length = m.data.length := List.length_map _
  have hlens : (m.problem env.atof).state.length = m.state.length := List.length_map _
  have htot := hd.total hshort
  have hall : m.arrays.length =
      m.cvData.length + m.testData.length + m.data.length + m.state.length := by
    simp only [ProblemMessage.arrays, List.length_append]
  have hle := hshort
  unfold Problem.Short Problem.count at hle
  induction ts generalizing n s d with
  | nil =>
    have hnil := hts.tokens
    rw [List.drop_eq_getElem_cons hn] at hnil
    cases hnil
  | cons t ts ih =>
    rw [List.drop_eq_getElem_cons hn] at hts
    obtain ⟨seps, ts', he, hsep, hts⟩ := hts.cons
    cases he
    have ht := List.getElem?_eq_getElem hn
    have hsucc : (s.index + 1).toNat = 8 + (n + 1) := by
      rw [UInt16.toNat_add, hi, UInt16.toNat_one]
      omega
    rw [parse_spell_cons]
    by_cases hint : n < m.cvData.length + m.testData.length
    · obtain ⟨d', hs', hi', hd'⟩ := parse_index env hm hshort hs hi hd ht hsep hint
      have hne := hm.nonempty
      exact ih hs' (by rw [hi']; exact hsucc) hd' hts (by omega) (hd'.total hshort)
    · obtain ⟨hfloat, d', hstore, hd'⟩ :=
        store_point env hm hshort hi hd ht (Nat.le_of_not_lt hint)
      have htot' := hd'.total hshort
      have hext := toNat_extend (s.index + 1)
      by_cases hlast : n + 1 < m.arrays.length
      · have hnot : (s.index + 1).toUInt64 ≠ d'.total := by
          intro h
          rw [← UInt64.toNat_inj, hext] at h
          omega
        obtain ⟨hs', hi'⟩ := parse_float hs hfloat hsep hstore hnot
        exact ih hs' (by rw [hi']; exact hsucc) hd' hts hlast htot'
      · have htotal : (s.index + 1).toUInt64 = d'.total := by
          rw [← UInt64.toNat_inj, hext]
          omega
        obtain ⟨id, w, hreg⟩ := hcall s.world d'.ptr d'.val
        obtain ⟨hb, hidle, _, hlog⟩ := parse_last hs hfloat hsep hstore htotal hhandler hreg
        have hnil : ts = [] := by
          have hdrop := hts.tokens
          rw [List.drop_eq_nil_of_le (Nat.le_of_not_lt hlast)] at hdrop
          exact List.map_eq_nil_iff.mp hdrop
        rw [hnil]
        exact ⟨⟨d', hlog, hd'.carries (by omega)⟩, hb, hidle⟩

theorem registered_of_short (hm : m.WellFormed) (henv : env.Serves m)
    (hts : Spells ts m.tokens) (w : W) (c₀ : UInt8) (hshort : (m.problem env.atof).Short) :
    RegisteredIntact m env (parse env (.start w c₀) (spell ts)) := by
  have hstart : (Parser.start w c₀).Between := ⟨rfl, rfl, rfl, rfl⟩
  have hheader : m.header =
      [m.type, m.optm, m.rows, m.sizeX] ++ [m.sizeY, m.cvSize, m.testSize, m.stateSize] := rfl
  rw [ProblemMessage.tokens, hheader] at hts
  obtain ⟨seps, ts, rfl, hsep, hts⟩ := hts.cons
  obtain ⟨ts, arrays, rfl, hts, harrays⟩ := hts.append
  obtain ⟨numbers, sizes, rfl, hnumbers, hsizes⟩ := hts.append
  simp only [parse_spell_cons, parse_spell_append]
  obtain ⟨ptr, w', hmalloc⟩ := henv.zeroed w
  obtain ⟨hs, hi⟩ := parse_registerProblem hstart hsep hmalloc
  obtain ⟨d, hs, hi, hd⟩ := parse_numbers env hm hs hi hnumbers
  obtain ⟨d, hs, hi, hd⟩ := parse_sizes hm henv hshort hs hi hd hsizes
  obtain ⟨register, hhandler, hcall⟩ := henv.handler
  have hne := hm.nonempty
  apply parse_arrays env hm hshort hhandler hcall hs (congrArg UInt16.toNat hi) hd harrays
  simp only [ProblemMessage.arrays, List.length_append]
  omega

theorem short_of_registered (hm : m.WellFormed) (w : W) (c₀ : UInt8) (bytes : List UInt8)
    (h : RegisteredIntact m env (parse env (.start w c₀) bytes)) :
    (m.problem env.atof).Short := by
  obtain ⟨d, hlog, hcarries⟩ := h.registered
  have hmem : d ∈ registeredProblems (parse env (.start w c₀) bytes).log :=
    hlog ▸ List.mem_singleton_self d
  obtain ⟨e, he, hreg⟩ := List.mem_filterMap.mp hmem
  have hatTotal := registered_atTotal env w c₀ bytes e he
  cases e with
  | registerProblem d' =>
    obtain rfl := Option.some.inj hreg
    obtain ⟨i, hi⟩ := hatTotal
    have hfit := hcarries.fits
    have hlt (t) (ht : t ∈ m.header) : decimal t < 2 ^ 31 := (hm.header t ht).value
    have hc := hlt m.cvSize (by simp [ProblemMessage.header])
    have ht := hlt m.testSize (by simp [ProblemMessage.header])
    have hs := hlt m.stateSize (by simp [ProblemMessage.header])
    have hlenc : (m.problem env.atof).cvData.length = _ := (List.length_map _).trans hm.cvSize
    have hlent : (m.problem env.atof).testData.length = _ := (List.length_map _).trans hm.testSize
    have hlen : (m.problem env.atof).data.length = _ := (List.length_map _).trans hm.points
    have hlens : (m.problem env.atof).state.length = _ := (List.length_map _).trans hm.stateSize
    have hbounded : d'.val.Bounded :=
      ⟨by rw [hfit.cvSize, hlenc]; exact hc, by rw [hfit.testSize, hlent]; exact ht,
        by rw [hfit.stateSize, hlens]; exact hs,
        by rw [hfit.points, hlen]; exact hm.points_lt.trans (by decide)⟩
    have htotal := hbounded.total_toNat
    rw [← hi, toNat_extend, hfit.cvSize, hfit.testSize, hfit.points, hfit.stateSize] at htotal
    have hlti := i.toNat_lt
    unfold Problem.Short Problem.count
    omega
  | _ => cases hreg

/-- A problem message is registered, once and intact, exactly when the position of its last number
fits the 16-bit index. -/
theorem registered_iff_short (hm : m.WellFormed) (henv : env.Serves m)
    (hts : Spells ts m.tokens) (w : W) (c₀ : UInt8) :
    RegisteredIntact m env (parse env (.start w c₀) (spell ts)) ↔
      (m.problem env.atof).Short :=
  ⟨short_of_registered hm w c₀ (spell ts), registered_of_short hm henv hts w c₀⟩

end Parsing

def ProblemMessage.column (rows : CString) (n : Nat) : ProblemMessage where
  type := cstr "1"
  optm := cstr "1"
  rows := rows
  sizeX := cstr "1"
  sizeY := cstr "0"
  cvSize := cstr "0"
  testSize := cstr "0"
  stateSize := cstr "0"
  cvData := []
  testData := []
  data := List.replicate n (cstr "1.0")
  state := []

theorem ProblemMessage.column_wellFormed {rows : CString} (hr : Numeral rows)
    (hn : n = decimal rows) (hpos : 1 ≤ n) : (column rows n).WellFormed where
  header := by
    have h0 := numeral_zero
    have h1 := numeral_one
    simp only [ProblemMessage.header, column, List.forall_mem_cons]
    exact ⟨h1, h1, hr, h1, h0, h0, h0, h0, fun _ h => absurd h List.not_mem_nil⟩
  cvData := fun _ h => absurd h List.not_mem_nil
  testData := fun _ h => absurd h List.not_mem_nil
  data := by
    intro t ht
    rw [List.eq_of_mem_replicate ht]
    exact ⟨⟨cstr "1", cstr "0", rfl, nofun, nofun, numeral_one.digits, numeral_zero.digits⟩,
      by decide⟩
  state := fun _ h => absurd h List.not_mem_nil
  cvSize := rfl
  testSize := rfl
  points := by
    have hone : decimal (cstr "1") + decimal (cstr "0") = 1 := rfl
    simp only [column, List.length_replicate, hone, Nat.mul_one]
    exact hn
  stateSize := rfl
  nonempty := by
    simp only [column, List.length_replicate]
    exact hpos

theorem ProblemMessage.column_serves {rows : CString} (hr : Numeral rows) (n : Nat) :
    Env.sample.Serves (column rows n) where
  handler := ⟨_, rfl, fun w p v => ⟨2, w, rfl⟩⟩
  zeroed := fun w => ⟨w, w + 88, rfl⟩
  allocates := by
    have hv := hr.value
    have hrows : decimal rows * (decimal (cstr "1") + decimal (cstr "0")) = decimal rows :=
      Nat.mul_one _
    simp only [List.forall_mem_cons, column, hrows]
    refine ⟨?_, fun h => absurd rfl h, fun h => absurd rfl h, fun h => absurd rfl h,
      fun _ h => absurd h List.not_mem_nil⟩
    intro _ w
    have hlt : UInt64.ofNat (decimal rows) * 8 < 9223372036854775808 := by
      have h8 : (8 : UInt64).toNat = 8 := rfl
      have hmax : (9223372036854775808 : UInt64).toNat = 9223372036854775808 := rfl
      rw [UInt64.lt_iff_toNat_lt, UInt64.toNat_mul, UInt64.toNat_ofNat', h8, hmax]
      omega
    exact ⟨⟨w, UInt64.ofNat (decimal rows) * 8, fun _ => 0⟩, _, if_pos hlt, rfl⟩

theorem ProblemMessage.column_count (rows : CString) (n : Nat) (atof : CString → UInt64) :
    ((column rows n).problem atof).count = 8 + n := by
  simp only [Problem.count, problem, column, List.map_nil, List.length_nil, List.length_map,
    List.length_replicate]
  omega

def ProblemMessage.spaced (m : ProblemMessage) : List (CString × List UInt8) :=
  m.tokens.map fun t => (t, [32])

theorem ProblemMessage.spaced_spells (m : ProblemMessage) : Spells m.spaced m.tokens where
  tokens := by
    rw [spaced, List.map_map]
    exact List.map_id _
  separators := by
    intro t ht
    obtain ⟨u, _, rfl⟩ := List.mem_map.mp ht
    exact ⟨List.cons_ne_nil _ _, fun c hc => List.mem_singleton.mp hc ▸ rfl⟩

theorem registered_iff_short_one :
    RegisteredIntact (.column (cstr "1") 1) Env.sample
        (parse Env.sample (.start 0 0) (spell (ProblemMessage.column (cstr "1") 1).spaced)) ↔
      ((ProblemMessage.column (cstr "1") 1).problem Env.sample.atof).Short := by
  exact registered_iff_short (ProblemMessage.column_wellFormed numeral_one rfl (Nat.le_refl 1))
    (ProblemMessage.column_serves numeral_one 1) (ProblemMessage.spaced_spells _) 0 0

/-- The last number of this problem has position 65536. -/
theorem registered_not_intact :
    (ProblemMessage.column (cstr "65528") 65528).WellFormed ∧
      Env.sample.Serves (.column (cstr "65528") 65528) ∧
      ¬ RegisteredIntact (.column (cstr "65528") 65528) Env.sample
        (parse Env.sample (.start 0 0)
          (spell (ProblemMessage.column (cstr "65528") 65528).spaced)) := by
  have hrows : Numeral (cstr "65528") := .of_all nofun (by decide) (by decide) (by decide)
  have hm : (ProblemMessage.column (cstr "65528") 65528).WellFormed :=
    ProblemMessage.column_wellFormed hrows rfl (by decide)
  refine ⟨hm, ProblemMessage.column_serves hrows 65528, ?_⟩
  intro h
  have hshort := short_of_registered hm 0 0 _ h
  rw [Problem.Short, ProblemMessage.column_count] at hshort
  exact absurd hshort (by decide)

end Aiqb
