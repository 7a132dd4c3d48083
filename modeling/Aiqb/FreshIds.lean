import Aiqb.StoreSteps

namespace Aiqb
set_option autoImplicit true

/-- A successful registration returns an id that no stored problem has, and the file that it opens
for writing does not exist. -/
def RegistersFresh (t : Tree) (s : ProblemStore) (e : StoreEvent) : Prop :=
  ∀ r s' id, e = .register r → registerProblem t s r = some (s', some id) →
    (∀ q ∈ s.stored, q.id ≠ id) ∧
      ∀ cwd, t.dir s.cwd s.side.databaseDir = some cwd → t.read s.files cwd (fileName id) = none

section Fresh

variable {t : Tree} {files : Files} {path : CString} {d cwd : Dir} {s : ProblemStore}

theorem ProblemStore.Good.registersFresh (h : s.Good t path d) (hp : Proper t d s e) :
    RegistersFresh t s e := by
  intro r s' id he hr
  have hdatabase := h.database
  obtain ⟨o, b, hk, hb, hdir, hf⟩ := h
  have hid : id = b.autoIncrement := by
    rcases registerProblem_cases hdatabase (hp.memory r he) hr with ⟨hres, _⟩ | ⟨bytes, hres, _, _⟩
    · cases hres
    · rw [← hk.autoIncrement]
      exact Option.some.inj hres
  constructor
  · intro q hq heq
    have hlt := hf.below q hq
    rw [heq, hid] at hlt
    exact Nat.lt_irrefl _ hlt
  · intro cwd hcwd
    obtain rfl : d = cwd := Option.some.inj ((hdatabase.dir s.cwd).symm.trans hcwd)
    rw [Tree.read, Tree.place_plain (fileName_plain id) (List.cons_ne_nil _ _), hid]
    exact hf.fresh

/-- In every run whose loads are granted their memory, each registration gets a fresh id and a
fresh file. -/
theorem ids_fresh (h : t.StartsEmpty files path d)
    (hp : StepsMeet (storeStep t) (Proper t d) (.start files cwd size path) es)
    (hg : StepsMeet (storeStep t) LoadGranted (.start files cwd size path) es) :
    StepsMeet (storeStep t) (RegistersFresh t) (.start files cwd size path) es := by
  intro pre e s hpre hr
  have hproper := hp pre e s hpre hr
  have hes : pre <+: es := (List.prefix_append pre [e]).trans hpre
  have hgood : s.Good t path d :=
    ProblemStore.good_of_run h (hp.of_prefix hes) (hg.of_prefix hes) hr
  exact hgood.registersFresh hproper

end Fresh

section Sample

def Tree.sample : Tree where
  root := 0
  sub d name :=
    if name = cstr "." then some d
    else if name = cstr ".." then some 0
    else if d = 0 ∧ name = cstr "d" then some 1
    else none

theorem Tree.sample_startsEmpty :
    Tree.sample.StartsEmpty (fun _ _ => none) (cstr "/d") 1 where
  absolute := rfl
  dir := by decide
  notRoot := by decide
  sub name hname := by
    by_cases hdot : name = cstr "."
    · exact .inl hdot
    · by_cases hdots : name = cstr ".."
      · exact .inr hdots
      · simp only [sample, if_neg hdot, if_neg hdots] at hname
        cases hname
  files _ := rfl

def Registration.sample : Registration where
  problem := .oneRow 0
  time := 0
  granted := true
  pack := .sample

theorem Proper.sample (hids : s.side.autoIncrement.toNat < 2 ^ 64 - 1) :
    Proper t d s (.register .sample) where
  ids _ _ := hids
  memory r he atoms hatoms := by
    cases he
    cases hatoms
    decide
  entries := nofun

def sampleBytes : List UInt8 :=
  metadataBytes ⟨1, 0, 0, 0, statusNew⟩ PackEnv.sample.metadataPadding ++
    headerBytes (.oneRow 0) PackEnv.sample.headerPadding ++ atomsBytes [7]

def ProblemStore.sample : ProblemStore := .start (fun _ _ => none) 0 1 (cstr "/d")

def sampleEntries (granted : Bool) : List DirEntry :=
  [⟨cstr ".", true, true, true⟩, ⟨cstr "..", true, true, true⟩, ⟨fileName 1, granted, true, true⟩]

theorem sampleEntries_list (granted : Bool) {files : Files}
    (hf : ∀ name, (files 1 name).isSome ↔ name = fileName 1) :
    Lists .sample files 1 (sampleEntries granted) where
  nodup := by
    have hdot : cstr "." ≠ fileName 1 := nofun
    have hdots : cstr ".." ≠ fileName 1 := nofun
    simp only [sampleEntries, List.map_cons, List.map_nil, List.nodup_cons, List.mem_cons,
      List.not_mem_nil, or_false, hdot, hdots, not_false_eq_true, List.nodup_nil, and_true]
    decide
  mem name := by
    have hsub : (Tree.sample.sub 1 name).isSome ↔ name = cstr "." ∨ name = cstr ".." := by
      constructor
      · exact Tree.sample_startsEmpty.sub name
      · rintro (rfl | rfl) <;> rfl
    rw [hsub, hf]
    simp only [sampleEntries, List.map_cons, List.map_nil, List.mem_cons, List.not_mem_nil,
      or_false, or_assoc]

theorem sample_put_isSome (bytes : List UInt8) (name : CString) :
    (ProblemStore.sample.files.put 1 (fileName 1) bytes 1 name).isSome ↔ name = fileName 1 := by
  rw [Files.put_isSome]
  exact or_iff_left nofun

def ProblemStore.sampleOne : ProblemStore := registered .sample 1 0 sampleBytes

def ProblemStore.sampleStored : ProblemStore :=
  { sampleOne with side := (insertAtom sampleOne.side 0).getD sampleOne.side }

theorem ProblemStore.sample_registers :
    storeStep .sample .sample (.register .sample) = some sampleOne := rfl

theorem ProblemStore.sample_inserts :
    storeStep .sample sampleOne (.insert 0) = some sampleStored := rfl

theorem sampleEntries_granted : ∀ ent ∈ sampleEntries true, ent.Granted := by
  intro ent hent
  rw [sampleEntries, List.mem_cons, List.mem_cons, List.mem_singleton] at hent
  rcases hent with rfl | rfl | rfl <;> exact .inr ⟨rfl, rfl, rfl⟩

theorem ProblemStore.sample_reloads
    (hs : storeStep .sample sampleStored (.restart 0 1 (sampleEntries true)) = some s) :
    s.side.autoIncrement = 2 := by
  have hid : (storeStep .sample sampleStored (.restart 0 1 (sampleEntries true))).map
      (fun s => s.side.autoIncrement) = some 2 := by
    decide +kernel
  rw [hs] at hid
  exact Option.some.inj hid

/-- A problem is stored, the next load is granted its memory, and another problem is registered. -/
def rememberingRun : List StoreEvent :=
  [.register .sample, .insert 0, .restart 0 1 (sampleEntries true), .register .sample]

theorem ids_fresh_restart :
    (∃ s, Run (storeStep .sample) .sample rememberingRun s) ∧
      StepsMeet (storeStep .sample) (RegistersFresh .sample) .sample rememberingRun := by
  have hsome : (rememberingRun.foldlM (storeStep .sample) ProblemStore.sample).isSome := by
    decide +kernel
  refine ⟨Option.isSome_iff_exists.mp hsome, ids_fresh Tree.sample_startsEmpty ?_ ?_⟩
  · refine .cons (.sample (by decide)) fun s hs => ?_
    cases ProblemStore.sample_registers.symm.trans hs
    refine .cons ⟨nofun, nofun, nofun⟩ fun s hs => ?_
    cases ProblemStore.sample_inserts.symm.trans hs
    refine .cons ⟨nofun, nofun, ?_⟩ fun s hs => ?_
    · rintro cwd size entries he
      cases he
      exact sampleEntries_list true (sample_put_isSome sampleBytes)
    · refine .cons (.sample ?_) fun _ _ => .nil _ _ _
      rw [ProblemStore.sample_reloads hs]
      decide
  · refine .cons nofun fun s hs => .cons nofun fun s hs => .cons ?_ fun s hs => ?_
    · rintro cwd size entries he
      cases he
      exact sampleEntries_granted
    · exact .cons nofun fun _ _ => .nil _ _ _

theorem ProblemStore.sample_run :
    Run (storeStep .sample) .sample [.register .sample, .insert 0] .sampleStored :=
  Run.cons_iff.mpr ⟨_, sample_registers, Run.cons_iff.mpr ⟨_, sample_inserts, rfl⟩⟩

def ProblemStore.sampleForgotten : ProblemStore :=
  ProblemStore.sampleStored.restarted 0 1 Heap.empty none 0

theorem ProblemStore.sample_forgets :
    storeStep .sample sampleStored (.restart 0 1 (sampleEntries false)) = some sampleForgotten :=
  rfl

/-- A problem is stored, the next load is not granted its first atom, and another problem is
registered. -/
def forgettingRun : List StoreEvent :=
  [.register .sample, .insert 0, .restart 0 1 (sampleEntries false), .register .sample]

theorem ids_not_fresh :
    (∃ s, Run (storeStep .sample) .sample forgettingRun s) ∧
      StepsMeet (storeStep .sample) (Proper .sample 1) .sample forgettingRun ∧
      ¬ StepsMeet (storeStep .sample) (RegistersFresh .sample) .sample forgettingRun := by
  have hrun : Run (storeStep .sample) .sample
      ([.register .sample, .insert 0] ++ [.restart 0 1 (sampleEntries false)]) .sampleForgotten :=
    Run.snoc_iff.mpr ⟨_, ProblemStore.sample_run, ProblemStore.sample_forgets⟩
  have hreg : registerProblem .sample .sampleForgotten .sample =
      some (registered .sampleForgotten 1 0 sampleBytes, some 1) := rfl
  refine ⟨⟨_, Run.snoc_iff.mpr ⟨_, hrun, rfl⟩⟩, ?_, ?_⟩
  · refine .cons (.sample (by decide)) fun s hs => ?_
    cases ProblemStore.sample_registers.symm.trans hs
    refine .cons ⟨nofun, nofun, nofun⟩ fun s hs => ?_
    cases ProblemStore.sample_inserts.symm.trans hs
    refine .cons ⟨nofun, nofun, ?_⟩ fun s hs => ?_
    · rintro cwd size entries he
      cases he
      exact sampleEntries_list false (sample_put_isSome sampleBytes)
    · cases ProblemStore.sample_forgets.symm.trans hs
      exact .cons (.sample (by decide)) fun _ _ => .nil _ _ _
  · intro hfresh
    have hnot := hfresh _ _ _ (List.prefix_refl _) hrun .sample _ 1 rfl hreg
    exact hnot.1 ⟨1, 0, 0, false, sampleBytes.drop 48⟩ (List.mem_singleton_self _) rfl

end Sample

end Aiqb
