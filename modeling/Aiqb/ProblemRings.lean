import Aiqb.Emitted
import Aiqb.Fsdb
import Aiqb.RingLists

namespace Aiqb
set_option autoImplicit true

/-- A database as a list of atoms; without a query the first one is asked for. -/
def dbSpec : ListSpec FsdbT (Option Query) where
  settle _ atom := atom
  cond query := query.map Query.matches

def dbOps : RingOps FsdbT (Option Query) := ⟨insertDb, extractDb⟩

def FsdbT.idNumber (atom : FsdbT) : Nat := atom.header.id.toNat

theorem map_id_val (val : Ptr → Option α) : (fun p => (val p).map id) = val :=
  funext fun _ => Option.map_id_apply

theorem lookupDb_pick (val : Ptr → Option FsdbT) (xs : List Ptr) (query : Option Query) :
    lookupDb val xs query = pick (fun p => (val p).map id) xs (dbSpec.cond query) := by
  rw [map_id_val]
  cases query with
  | none => rfl
  | some query => rfl

theorem dbOps_implement : dbOps.Implement dbSpec id fun _ _ => True where
  skip _ _ := rfl
  insert hr hp hv _ _ := by
    obtain ⟨h', head', he, hr', _, hv', hsame⟩ := insertDb_spec hr hp hv
    refine ⟨h', head', _, he, hr', ?_, hsame, rfl⟩
    rw [hv', eq_comm, Function.update_eq_self_iff, hv]
    rfl
  extract_none hr hpick := extractDb_none hr ((lookupDb_pick _ _ _).trans hpick)
  extract_some hr hpick := by
    obtain ⟨h', head', he, hr', _, hv', hsame⟩ :=
      extractDb_some hr ((lookupDb_pick _ _ _).trans hpick)
    exact ⟨h', head', he, hr', hv', hsame⟩

theorem lastIdOf_max (ids : List UInt64) :
    (lastIdOf ids).toNat = (ids.map UInt64.toNat).max?.getD 0 := by
  by_cases hnil : ids = []
  · rw [hnil]
    rfl
  · have hmax := foldl_lastId_max (b := 0) hnil fun i _ => Nat.zero_le i.toNat
    rw [hmax, Option.getD_some]
    rfl

structure DbReads (s : RingState κ FsdbT) (b : ListFamily κ FsdbT) (i : κ) : Prop where
  find : ∀ query, findDb s.heap (s.head i) query = some (b.found dbSpec i query)
  extract_none : ∀ query, b.found dbSpec i query = none →
    extractDb s.heap (s.head i) query = some (s.heap, s.head i, none)
  count : countDb s.heap (s.head i) = some (UInt64.ofNat (b.list i).length)
  lastId : ∃ m, lastIdDb s.heap (s.head i) = some m ∧
    m.toNat = ((b.vals i).map FsdbT.idNumber).max?.getD 0

theorem RingState.StandsFor.dbReads {s : RingState κ FsdbT} (hs : s.StandsFor id b) (i : κ) :
    DbReads s b i := by
  have hr := hs.rings.ring i
  have hids : (dbIds s.heap.valOf (b.list i)).map UInt64.toNat =
      (b.vals i).map FsdbT.idNumber := by
    rw [← hs.vals_eq, List.map_id, dbIds, headersOf, List.map_map, List.map_map]
    rfl
  refine ⟨?_, ?_, countDb_spec hr, _, lastIdDb_spec hr, ?_⟩
  · intro query
    rw [findDb_spec hr, lookupDb_pick, hs.found_eq]
  · intro query hf
    apply extractDb_none hr
    rw [lookupDb_pick, hs.found_eq, hf]
  · rw [lastIdOf_max, hids]

/-- The databases are lists, whatever atoms are put into them and taken out of them. -/
theorem databases_are_lists [DecidableEq κ] (h : Heap FsdbT)
    (es : List (ListEvent κ (Option Query)))
    (hok : StepsMeet (RingState.step dbOps) (RingState.Allows id fun _ _ => True)
      (.start h) es) :
    ∃ s b, Run (RingState.step dbOps) (.start h) es s ∧
      Run (ListFamily.step dbSpec) (.start h.valOf) es b ∧
      s.StandsFor id b ∧ ∀ i, DbReads s b i := by
  obtain ⟨s, b, hs, hb, hst, _⟩ := dbOps_implement.run h hok
  rw [map_id_val] at hb
  exact ⟨s, b, hs, hb, hst, hst.dbReads⟩

def Heap.threeAtoms : Heap FsdbT :=
  ((Heap.empty.alloc ⟨[47, 97], ⟨1, 0, 0, 0, 78⟩⟩).alloc ⟨[47, 98], ⟨2, 0, 0, 0, 83⟩⟩).alloc
    ⟨[47, 99], ⟨3, 0, 0, 0, 78⟩⟩

def threeAtomsMoved : List (ListEvent Bool (Option Query)) :=
  [.insert false (some 0), .insert false (some 1), .insert false (some 2),
    .extract false (some (.byStatus 83)), .extract false none, .insert true (some 0)]

theorem databases_are_lists_three :
    ∃ s b, Run (RingState.step dbOps) (.start Heap.threeAtoms) threeAtomsMoved s ∧
      Run (ListFamily.step dbSpec) (.start Heap.threeAtoms.valOf) threeAtomsMoved b ∧
      s.StandsFor id b ∧ ∀ i, DbReads s b i := by
  have hpasses : passes (ListFamily.step dbSpec) (fun b e => decide (b.Allows (fun _ _ => True) e))
      (.start fun p => (Heap.threeAtoms.valOf p).map id) threeAtomsMoved = true := by
    decide +kernel
  apply databases_are_lists
  apply dbOps_implement.steps_meet (.start _ _) fun i p hp => (List.not_mem_nil hp).elim
  exact .of_passes (fun _ _ => of_decide_eq_true) hpasses

end Aiqb
