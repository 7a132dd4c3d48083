import Aiqb.ProblemApart

namespace Aiqb
set_option autoImplicit true

namespace ProblemSide.Keeps

variable {s : ProblemSide} {b : ProblemBook} {p : Ptr}

theorem live (hk : s.Keeps b) {a : FsdbT} (ha : b.val p = some a) : s.heap.Live p :=
  Heap.live_of_val (by rw [hk.val, ha])

theorem insertProblems (hk : s.Keeps b) {a : FsdbT} (ha : b.val p = some a)
    (hp : p ∉ b.problems) (hq : p ∉ b.problemQueue) :
    ∃ h db, insertDb s.heap s.problems (some p) = some (h, db) ∧
      Ring h db (b.problems ++ [p]) ∧ Ring h s.problemQueue b.problemQueue ∧
      List.Disjoint (b.problems ++ [p]) b.problemQueue ∧ h.valOf = b.val ∧ h.size = b.size := by
  have hv : s.heap.valOf p = some a := by rw [hk.val, ha]
  obtain ⟨h, db, he, hr, hs, hval, hsame⟩ := insertDb_spec hk.problems hp hv
  have hdisj : List.Disjoint (b.problems ++ [p]) b.problemQueue := by
    intro q hq' hm
    rcases List.mem_append.mp hq' with hq' | hq'
    · exact hk.disjoint hq' hm
    · exact hq (List.mem_singleton.mp hq' ▸ hm)
  exact ⟨h, db, he, hr, hk.problemQueue.frame_disjoint hsame hdisj.symm, hdisj,
    hval.trans hk.val, hs.trans hk.size⟩

theorem register (hk : s.Keeps b) (time : UInt64) :
    (registerAtom s time).Keeps (b.register time) where
  problems := hk.problems.alloc _
  problemQueue := hk.problemQueue.alloc _
  disjoint := hk.disjoint
  val := by
    rw [registerAtom, Heap.alloc_valOf, hk.val, hk.size, hk.databaseDir, hk.autoIncrement]
    rfl
  size := congrArg (· + 1) hk.size
  limit := hk.limit
  autoIncrement := congrArg (· + 1) hk.autoIncrement
  databaseDir := hk.databaseDir
  dispatcher := hk.dispatcher
  registering := by
    rw [registerAtom, hk.registering, hk.size]
    rfl
  started := hk.started
  solved := hk.solved
  returning := hk.returning

theorem insert (hk : s.Keeps b) (hb : b.Apart) (p : Ptr) :
    Option.Rel Keeps (insertAtom s p) (b.insert p) := by
  unfold insertAtom ProblemBook.insert
  rw [hk.registering]
  split
  · next hp =>
    have hheld := ProblemBook.mem_held_registering hp
    obtain ⟨a, ha⟩ := hb.held_live hheld
    obtain ⟨h, db, he, hx, hy, hdisj, hval, hsize⟩ :=
      hk.insertProblems ha (hb.notMem_problems hheld) (hb.notMem_queue hheld)
    simp only [he, Option.bind_eq_bind, Option.bind_some]
    exact .some { hk with
      problems := hx
      problemQueue := hy
      disjoint := hdisj
      val := hval
      size := hsize
      registering := rfl }
  · exact .none

theorem markSolved (hk : s.Keeps b) (p : Ptr) :
    Option.Rel Keeps (Aiqb.markSolved s p) (b.markSolved p) := by
  unfold Aiqb.markSolved ProblemBook.markSolved
  rw [hk.started, hk.val]
  split
  · cases ha : b.val p with
    | none => exact .none
    | some a =>
      obtain ⟨h, he, hs, hv, hn, hp⟩ :=
        Heap.setVal_spec (hk.live ha) { a with header.status := statusSolved }
      simp only [he, Option.bind_eq_bind, Option.bind_some, Option.map_some]
      exact .some { hk with
        problems := hk.problems.of_same_links hn hp
        problemQueue := hk.problemQueue.of_same_links hn hp
        val := by
          rw [hv, hk.val]
          rfl
        size := hs.trans hk.size
        started := rfl
        solved := congrArg (· ++ [p]) hk.solved }
  · exact .none

theorem takeSolved (hk : s.Keeps b) (p : Ptr) :
    Option.Rel Keeps (Aiqb.takeSolved s p) (b.takeSolved p) := by
  unfold Aiqb.takeSolved ProblemBook.takeSolved extractCompleted
  rw [hk.solved, hk.val]
  split
  · cases ha : b.val p with
    | none => exact .none
    | some a =>
      simp only [Option.bind_eq_bind, Option.bind_some, Option.map_some]
      cases hl : lookupDb b.val b.problemQueue (some (.byId a.header.id)) with
      | none =>
        rw [extractDb_none hk.problemQueue (by rw [hk.val, hl])]
        exact .some { hk with
          solved := rfl
          returning := congrArg (· ++ [none]) hk.returning }
      | some q =>
        have hfound : lookupDb s.heap.valOf b.problemQueue (some (.byId a.header.id)) = some q := by
          rw [hk.val, hl]
        obtain ⟨h, db, he, hr, hs, hv, hsame⟩ := extractDb_some hk.problemQueue hfound
        rw [he, Option.bind_some]
        exact .some { hk with
          problems := hk.problems.frame_disjoint hsame hk.disjoint
          problemQueue := hr
          disjoint := fun r hr' hm => hk.disjoint hr' (List.mem_of_mem_erase hm)
          val := hv.trans hk.val
          size := hs.trans hk.size
          solved := rfl
          returning := congrArg (· ++ [some q]) hk.returning }
  · exact .none

theorem giveBack (hk : s.Keeps b) (hb : b.Apart) (atom : Option Ptr) :
    Option.Rel Keeps (Aiqb.giveBack s atom) (b.giveBack atom) := by
  unfold Aiqb.giveBack ProblemBook.giveBack
  rw [hk.returning]
  by_cases hin : atom ∈ b.returning
  · rw [if_pos hin, if_pos (List.contains_iff_mem.mpr hin)]
    cases atom with
    | none =>
      simp only [insertDb, Option.bind_eq_bind, Option.bind_some, Option.toList_none,
        List.append_nil]
      exact .some { hk with returning := rfl }
    | some p =>
      have hheld := ProblemBook.mem_held_returning hin
      obtain ⟨a, ha⟩ := hb.held_live hheld
      obtain ⟨h, db, he, hx, hy, hdisj, hval, hsize⟩ :=
        hk.insertProblems ha (hb.notMem_problems hheld) (hb.notMem_queue hheld)
      simp only [he, Option.bind_eq_bind, Option.bind_some]
      exact .some { hk with
        problems := hx
        problemQueue := hy
        disjoint := hdisj
        val := hval
        size := hsize
        returning := rfl }
  · rw [if_neg hin, if_neg (mt List.contains_iff_mem.mp hin)]
    exact .none

theorem dispatch (hk : s.Keeps b) (hb : b.DispatcherApart) :
    Option.Rel Keeps (dispatchProblem s) b.dispatch := by
  have hlim : s.problemQueueSize.toUInt64 = b.limit.toUInt64 := by rw [hk.limit]
  unfold dispatchProblem ProblemBook.dispatch
  rw [hk.dispatcher]
  cases hd : b.dispatcher with
  | idle =>
    simp only [countDb_spec hk.problemQueue, hlim, Option.bind_eq_bind, Option.bind_some]
    split
    · exact .some { hk with dispatcher := rfl }
    · exact .some hk
  | ready =>
    simp only [Option.bind_eq_bind]
    cases hp : b.problems with
    | nil =>
      have hl : lookupDb s.heap.valOf b.problems none = none := by
        rw [hp]
        rfl
      simp only [extractDb_none hk.problems hl, Option.bind_some]
      exact .some { hk with
        problems := hp ▸ hk.problems
        disjoint := hp ▸ hk.disjoint
        dispatcher := rfl }
    | cons p rest =>
      have hl : lookupDb s.heap.valOf b.problems none = some p := by
        rw [hp]
        rfl
      obtain ⟨h, db, he, hr, hs, hv, hsame⟩ := extractDb_some hk.problems hl
      rw [hp, List.erase_cons_head] at hr
      simp only [he, Option.bind_some]
      exact .some { hk with
        problems := hr
        problemQueue := hk.problemQueue.frame_disjoint hsame hk.disjoint.symm
        disjoint := fun q hq hm => hk.disjoint (hp ▸ List.mem_cons_of_mem _ hq) hm
        val := hv.trans hk.val
        size := hs.trans hk.size
        dispatcher := rfl }
  | holding p =>
    have hheld : p ∈ b.dispatcher.held := by
      rw [hd]
      exact List.mem_singleton_self p
    obtain ⟨a, ha⟩ := hb.live p hheld
    have hva : s.heap.valOf p = some a := by rw [hk.val, ha]
    simp only [hva, ha, Option.bind_eq_bind, Option.bind_some, Option.map_some]
    split
    · obtain ⟨h, he, hs, hv, hn, hpv⟩ :=
        Heap.setVal_spec (hk.live ha) { a with header.status := statusInProgress }
      simp only [he, Option.bind_some]
      exact .some { hk with
        problems := hk.problems.of_same_links hn hpv
        problemQueue := hk.problemQueue.of_same_links hn hpv
        val := by
          rw [hv, hk.val]
          rfl
        size := hs.trans hk.size
        dispatcher := rfl }
    · obtain ⟨h, db, he, hx, hy, hdisj, hval, hsize⟩ :=
        hk.insertProblems ha (hb.notMem_problems p hheld) (hb.notMem_queue p hheld)
      simp only [he, Option.bind_some]
      exact .some { hk with
        problems := hx
        problemQueue := hy
        disjoint := hdisj
        val := hval
        size := hsize
        dispatcher := rfl }
  | marked p =>
    have hheld : p ∈ b.dispatcher.held := by
      rw [hd]
      exact List.mem_singleton_self p
    obtain ⟨a, ha⟩ := hb.live p hheld
    have hva : s.heap.valOf p = some a := by rw [hk.val, ha]
    obtain ⟨h, db, he, hr, hs, hv, hsame⟩ :=
      insertDb_spec hk.problemQueue (hb.notMem_queue p hheld) hva
    have hdisj : List.Disjoint b.problems (b.problemQueue ++ [p]) := by
      intro q hq' hm
      rcases List.mem_append.mp hm with hm | hm
      · exact hk.disjoint hq' hm
      · exact hb.notMem_problems p hheld (List.mem_singleton.mp hm ▸ hq')
    simp only [he, Option.bind_eq_bind, Option.bind_some]
    exact .some { hk with
      problems := hk.problems.frame_disjoint hsame hdisj
      problemQueue := hr
      disjoint := hdisj
      val := hv.trans hk.val
      size := hs.trans hk.size
      dispatcher := rfl }
  | queued p =>
    exact .some { hk with
      dispatcher := rfl
      started := congrArg (· ++ [p]) hk.started }

/-- The pointers and links of the daemon implement a book, as long as no atom is in two places. -/
theorem step (hk : s.Keeps b) (hb : b.Apart) (e : ProblemEvent) :
    Option.Rel Keeps (problemStep s e) (b.step e) := by
  cases e with
  | register time => exact .some (hk.register time)
  | insert p => exact hk.insert hb p
  | dispatch => exact hk.dispatch hb.dispatcher
  | markSolved p => exact hk.markSolved p
  | takeSolved p => exact hk.takeSolved p
  | giveBack atom => exact hk.giveBack hb atom

end ProblemSide.Keeps

end Aiqb
