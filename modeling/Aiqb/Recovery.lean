import Aiqb.FreshIds

namespace Aiqb
set_option autoImplicit true

section Recovering

variable {t : Tree} {files : Files} {path : CString} {d cwd cwd' : Dir} {s : ProblemStore}

/-- Wherever a run stops, a load that is granted its memory finds one atom for each successful
registration, with what it was registered with, and no other atom. -/
theorem load_recovers (h : t.StartsEmpty files path d)
    (hp : StepsMeet (storeStep t) (Proper t d) (.start files cwd size path) es)
    (hg : StepsMeet (storeStep t) LoadGranted (.start files cwd size path) es)
    (hr : Run (storeStep t) (.start files cwd size path) es s)
    (hl : Lists t s.files d entries) (hge : ∀ ent ∈ entries, ent.Granted) (cwd' : Dir) :
    ∃ heap db xs, loadDb t s.files cwd' path entries = some (heap, db) ∧
      Reloaded t s.files cwd' path s.stored heap db xs := by
  obtain ⟨o, b, _, _, rfl, hf⟩ := ProblemStore.good_of_run h hp hg hr
  exact hf.reloaded cwd' hl hge

end Recovering

theorem load_recovers_one :
    ∃ heap db xs,
      loadDb .sample ProblemStore.sampleStored.files 0 (cstr "/d") (sampleEntries true) =
        some (heap, db) ∧
      Reloaded .sample ProblemStore.sampleStored.files 0 (cstr "/d")
        ProblemStore.sampleStored.stored heap db xs := by
  refine load_recovers Tree.sample_startsEmpty ?_ ?_ ProblemStore.sample_run
    (sampleEntries_list true (sample_put_isSome sampleBytes)) ?_ 0
  · refine .cons (.sample (by decide)) fun s hs => ?_
    exact .cons ⟨nofun, nofun, nofun⟩ fun _ _ => .nil _ _ _
  · refine .cons nofun fun s hs => ?_
    exact .cons nofun fun _ _ => .nil _ _ _
  · exact sampleEntries_granted

section Failing

variable {t : Tree} {s : ProblemStore}

def Registration.refused : Registration where
  problem := .zero
  time := 0
  granted := true
  pack := .sample

theorem refused_run (n : Nat) (hd : t.dir s.cwd s.side.databaseDir = some s.cwd) :
    Run (storeStep t) s (List.replicate n (.register .refused))
      { s with side :=
        { s.side with autoIncrement := s.side.autoIncrement + UInt64.ofNat n } } := by
  induction n generalizing s with
  | zero =>
    have hzero : s.side.autoIncrement + UInt64.ofNat 0 = s.side.autoIncrement := UInt64.add_zero _
    rw [List.replicate_zero, Run.nil_iff, hzero]
  | succ n ih =>
    have hstep : storeStep t s (.register .refused) = some { s with side := skipId s.side } := by
      simp only [storeStep, registerProblem, hd]
      rfl
    rw [List.replicate_succ, Run.cons_iff]
    refine ⟨_, hstep, ?_⟩
    have hrun := ih (s := { s with side := skipId s.side }) hd
    have hadd : (skipId s.side).autoIncrement + UInt64.ofNat n =
        s.side.autoIncrement + UInt64.ofNat (n + 1) := by
      rw [skipId, UInt64.ofNat_add, UInt64.add_assoc, UInt64.add_comm 1]
      rfl
    rw [hadd] at hrun
    exact hrun

/-- The daemon when 2^64-1 registrations have failed after the first one: the next id is 1. -/
def ProblemStore.sampleWrapped : ProblemStore :=
  { sampleStored with side := { sampleStored.side with autoIncrement := 1 } }

theorem ProblemStore.sample_wraps :
    Run (storeStep .sample) .sampleStored (List.replicate (2 ^ 64 - 1) (.register .refused))
      .sampleWrapped := by
  have hdir : Tree.sample.dir sampleStored.cwd sampleStored.side.databaseDir =
      some sampleStored.cwd := by rfl
  have hnext : sampleStored.side.autoIncrement + UInt64.ofNat (2 ^ 64 - 1) = 1 := by
    have htwo : sampleStored.side.autoIncrement = 2 := by rfl
    rw [htwo]
    decide
  have hrun := refused_run (2 ^ 64 - 1) hdir
  rw [hnext] at hrun
  exact hrun

def ProblemStore.sampleTwice : ProblemStore := registered .sampleWrapped 1 0 sampleBytes

theorem ProblemStore.sample_registers_again :
    storeStep .sample sampleWrapped (.register .sample) = some sampleTwice := rfl

theorem sampleTwice_list (granted : Bool) :
    Lists .sample ProblemStore.sampleTwice.files 1 (sampleEntries granted) := by
  apply sampleEntries_list
  intro name
  have hput := Files.put_isSome ProblemStore.sampleWrapped.files 1 (fileName 1) sampleBytes name
  exact hput.trans (or_iff_left_of_imp (sample_put_isSome sampleBytes name).mp)

theorem sampleTwice_lost (h : Reloaded .sample ProblemStore.sampleTwice.files 0 (cstr "/d")
      ProblemStore.sampleTwice.stored heap db xs)
    (hload : loadDb .sample ProblemStore.sampleTwice.files 0 (cstr "/d") (sampleEntries true) =
      some (heap, db)) : False := by
  have hdir : Tree.sample.dir 0 (cstr "/d") = some 1 := by decide
  obtain ⟨heap', db', ys, hload', hring, _, hvals⟩ :=
    loadDb_spec ProblemStore.sampleTwice.files hdir sampleEntries_granted
  cases hload.symm.trans hload'
  obtain rfl := h.ring.unique hring
  obtain ⟨rs, hrec, hperm⟩ := h.recovers
  have htwo : rs.length = 2 := hperm.length_eq
  have hone : (heap.vals xs).length ≤ 1 := by
    have hdot (name : CString) (hname : name.head? = some 46) :
        loadedAtom .sample ProblemStore.sampleTwice.files 0 (cstr "/d") name = none :=
      if_pos (.inl hname)
    rw [hvals, sampleEntries, List.map_cons, List.map_cons, List.filterMap_cons_none (hdot _ rfl),
      List.filterMap_cons_none (hdot _ rfl)]
    exact List.length_filterMap_le _ _
  rw [hrec.length_eq, htwo] at hone
  exact absurd hone (by decide)

/-- A problem is registered, 2^64-1 registrations fail, and another problem is registered. -/
def wrappingRun : List StoreEvent :=
  [.register .sample, .insert 0] ++
    (List.replicate (2 ^ 64 - 1) (.register .refused) ++ [.register .sample])

theorem ProblemStore.wrapping_run :
    Run (storeStep .sample) .sample wrappingRun .sampleTwice :=
  Run.append_iff.mpr ⟨_, sample_run, Run.snoc_iff.mpr ⟨_, sample_wraps, sample_registers_again⟩⟩

/-- A load without memory finds nothing of what was stored, and after 2^64-1 failed registrations
an id is used again. -/
theorem load_not_recovers :
    (Run (storeStep .sample) .sample [.register .sample, .insert 0] .sampleStored ∧
      StepsMeet (storeStep .sample) (Proper .sample 1) .sample [.register .sample, .insert 0] ∧
      Lists .sample ProblemStore.sampleStored.files 1 (sampleEntries false) ∧
      ¬ ∃ heap db xs,
        loadDb .sample ProblemStore.sampleStored.files 0 (cstr "/d") (sampleEntries false) =
          some (heap, db) ∧
        Reloaded .sample ProblemStore.sampleStored.files 0 (cstr "/d")
          ProblemStore.sampleStored.stored heap db xs) ∧
    Run (storeStep .sample) .sample wrappingRun .sampleTwice ∧
      Lists .sample ProblemStore.sampleTwice.files 1 (sampleEntries true) ∧
      (∀ ent ∈ sampleEntries true, ent.Granted) ∧
      ¬ ∃ heap db xs,
        loadDb .sample ProblemStore.sampleTwice.files 0 (cstr "/d") (sampleEntries true) =
          some (heap, db) ∧
        Reloaded .sample ProblemStore.sampleTwice.files 0 (cstr "/d")
          ProblemStore.sampleTwice.stored heap db xs := by
  refine ⟨⟨ProblemStore.sample_run, ?_, sampleEntries_list false (sample_put_isSome sampleBytes),
    ?_⟩, ProblemStore.wrapping_run, sampleTwice_list true, sampleEntries_granted, ?_⟩
  · refine .cons (.sample (by decide)) fun s hs => ?_
    exact .cons ⟨nofun, nofun, nofun⟩ fun _ _ => .nil _ _ _
  · rintro ⟨heap, db, xs, hload, h⟩
    have hnone : loadDb .sample ProblemStore.sampleStored.files 0 (cstr "/d")
        (sampleEntries false) = some (Heap.empty, none) := rfl
    cases hnone.symm.trans hload
    obtain ⟨rs, hrec, hperm⟩ := h.recovers
    have hone : rs.length = 1 := hperm.length_eq
    rw [h.ring.head_none] at hrec
    rw [← hrec.length_eq] at hone
    cases hone
  · rintro ⟨heap, db, xs, hload, h⟩
    exact sampleTwice_lost h hload

end Failing

end Aiqb
