import Aiqb.LineCuts
import Aiqb.SolutionReply

namespace Aiqb
set_option autoImplicit true

open Decimals LineCuts

def tokenReplyIdle : CString := cstr "ok\n"
def tokenReplyUnknownError : CString := cstr "err:unknown\n"
def tokenReplyMemoryError : CString := cstr "err:memory\n"
def tokenReplyNotReady : CString := cstr "wrn:notready\n"
def tokenReplySolution : CString := cstr "ok:solution:"

/-- `%ld` of an unsigned long, which it takes for a signed one -/
def printLong (n : UInt64) : CString :=
  if n.toNat < 2 ^ 63 then numeral n.toNat else 45 :: numeral (2 ^ 64 - n.toNat)

def tokenReplyProblemOk (id : UInt64) : CString := cstr "ok:problem:" ++ printLong id ++ [10]
def tokenReplyAnswerOk (id : UInt64) : CString := cstr "ok:answer:" ++ printLong id ++ [10]

/-- `sprintf` to the buffer of `_reply`. A text that does not fit has no defined behaviour. -/
def sprintfReply (text : CString) : Option CString :=
  if text.length + 1 ≤ replyMaxBuffer then some text else none

def AnswerT.output (a : AnswerT) (c : Nat) : Option UInt64 :=
  a.data.bind fun b =>
    let i := a.sizeX + UInt64.ofNat c
    if i.toNat < b.length then some (b.cells i.toNat) else none

/-- What `_reply` writes to an open descriptor, where `print` is `%.2lf` of the C library. -/
def reply (print : UInt64 → CString) : Reply → Option CString
  | .solution a => do
    let head ← sprintfReply tokenReplySolution
    let atoms ← (List.range a.sizeY.toNat).mapM fun c => do
      sprintfReply (print (← a.output c) ++ [32])
    some (head ++ atoms.flatten ++ [10])
  | .notReady => sprintfReply tokenReplyNotReady
  | .problemOk id => sprintfReply (tokenReplyProblemOk id)
  | .answerOk id => sprintfReply (tokenReplyAnswerOk id)
  | .memoryError => sprintfReply tokenReplyMemoryError
  | .unknownError => sprintfReply tokenReplyUnknownError
  | .idle => sprintfReply tokenReplyIdle

def replyBytes (print : UInt64 → CString) (rs : List Reply) : Option CString :=
  (rs.mapM (reply print)).map List.flatten

inductive Said where
  | idle
  | unknownError
  | memoryError
  | notReady
  | problemOk (id : UInt64)
  | answerOk (id : UInt64)
  | solution (outputs : List CString)

def Reply.content (print : UInt64 → CString) : Reply → Option Said
  | .solution a =>
    ((List.range a.sizeY.toNat).mapM a.output).map fun outputs => .solution (outputs.map print)
  | .notReady => some .notReady
  | .problemOk id => some (.problemOk id)
  | .answerOk id => some (.answerOk id)
  | .memoryError => some .memoryError
  | .unknownError => some .unknownError
  | .idle => some .idle

def Said.line : Said → CString
  | .idle => cstr "ok"
  | .unknownError => cstr "err:unknown"
  | .memoryError => cstr "err:memory"
  | .notReady => cstr "wrn:notready"
  | .problemOk id => cstr "ok:problem:" ++ printLong id
  | .answerOk id => cstr "ok:answer:" ++ printLong id
  | .solution outputs => cstr "ok:solution:" ++ ended 32 outputs

/-- A printed number has neither a blank nor the end of a line in it. -/
def PrintsNumbers (print : UInt64 → CString) : Prop := ∀ v, 32 ∉ print v ∧ 10 ∉ print v

def Said.Plain : Said → Prop
  | .solution outputs => ∀ text ∈ outputs, 32 ∉ text ∧ 10 ∉ text
  | _ => True

section Texts

variable {print : UInt64 → CString} {r : Reply} {x y : Said}

theorem mem_printLong {c : UInt8} (h : c ∈ printLong n) : c = 45 ∨ 48 ≤ c.toNat := by
  unfold printLong at h
  split at h
  · exact .inr (mem_numeral h).1
  · exact (List.mem_cons.mp h).imp_right fun h => (mem_numeral h).1

theorem newline_not_mem_printLong (n : UInt64) : 10 ∉ printLong n := by
  intro h
  rcases mem_printLong h with h | h
  · cases h
  · exact absurd h (by decide)

theorem printLong_inj {m n : UInt64} (h : printLong m = printLong n) : m = n := by
  have hm := m.toNat_lt
  have hn := n.toNat_lt
  have hminus (k : Nat) (l : CString) : 45 :: l ≠ numeral k := by
    intro he
    have hmem : 45 ∈ numeral k := he ▸ List.mem_cons_self
    exact absurd (mem_numeral hmem).1 (by decide)
  apply UInt64.toNat_inj.mp
  unfold printLong at h
  split at h <;> split at h
  · exact numeral_inj h
  · exact absurd h.symm (hminus _ _)
  · exact absurd h (hminus _ _)
  · have hnumber := numeral_inj (List.cons.inj h).2
    omega

theorem newline_not_mem_line (hx : x.Plain) : 10 ∉ x.line := by
  have hhead {text : CString} {s : CString} (hs : 10 ∉ s) (ht : 10 ∉ text) : 10 ∉ s ++ text :=
    fun h => (List.mem_append.mp h).elim hs ht
  cases x with
  | problemOk id => exact hhead (by decide) (newline_not_mem_printLong id)
  | answerOk id => exact hhead (by decide) (newline_not_mem_printLong id)
  | solution outputs =>
    refine hhead (by decide) fun h => ?_
    obtain ⟨text, htext, h⟩ := List.mem_flatMap.mp h
    rcases List.mem_append.mp h with h | h
    · exact (hx text htext).2 h
    · exact absurd (List.mem_singleton.mp h) (by decide)
  | _ => exact by decide

def Said.mark : Said → CString
  | .idle => cstr "ok"
  | .unknownError => cstr "err:u"
  | .memoryError => cstr "err:m"
  | .notReady => cstr "wrn:n"
  | .problemOk _ => cstr "ok:pr"
  | .answerOk _ => cstr "ok:an"
  | .solution _ => cstr "ok:so"

theorem Said.line_take (x : Said) : x.line.take 5 = x.mark := by
  cases x <;> rfl

theorem Said.eq_of_mark (h : x.mark = y.mark)
    (hproblem : ∀ i j, x = .problemOk i → y = .problemOk j → i = j)
    (hanswer : ∀ i j, x = .answerOk i → y = .answerOk j → i = j)
    (hsolution : ∀ us vs, x = .solution us → y = .solution vs → us = vs) : x = y := by
  cases x <;> cases y <;> simp only [mark] at h <;> first | rfl | exact absurd h (by decide) | skip
  · exact congrArg problemOk (hproblem _ _ rfl rfl)
  · exact congrArg answerOk (hanswer _ _ rfl rfl)
  · exact congrArg solution (hsolution _ _ rfl rfl)

theorem Said.line_inj (hx : x.Plain) (hy : y.Plain) (h : x.line = y.line) : x = y := by
  have hmark : x.mark = y.mark := by rw [← x.line_take, ← y.line_take, h]
  apply eq_of_mark hmark
  · rintro i j rfl rfl
    exact printLong_inj (List.append_cancel_left h)
  · rintro i j rfl rfl
    exact printLong_inj (List.append_cancel_left h)
  · rintro us vs rfl rfl
    have hended : ended 32 us = ended 32 vs := List.append_cancel_left h
    exact ended_inj (fun text ht => (hx text ht).1) (fun text ht => (hy text ht).1) hended

theorem mapM_factors {F : α → Option γ} {f : α → Option β} {k : β → γ} {P : β → Prop}
    {as : List α} {cs : List γ}
    (hF : ∀ a c, F a = some c → ∃ b, f a = some b ∧ P b ∧ c = k b) (h : as.mapM F = some cs) :
    ∃ bs : List β, as.mapM f = some bs ∧ (∀ b ∈ bs, P b) ∧ cs = bs.map k := by
  induction as generalizing cs with
  | nil =>
    cases h
    exact ⟨[], rfl, List.forall_mem_nil P, rfl⟩
  | cons a as ih =>
    rw [List.mapM_cons] at h
    obtain ⟨c, hc, h⟩ := Option.bind_eq_some_iff.mp h
    obtain ⟨cs', hcs, h⟩ := Option.bind_eq_some_iff.mp h
    cases h
    obtain ⟨b, hb, hP, rfl⟩ := hF a c hc
    obtain ⟨bs, hbs, hall, rfl⟩ := ih hcs
    refine ⟨b :: bs, ?_, List.forall_mem_cons.mpr ⟨hP, hall⟩, rfl⟩
    rw [List.mapM_cons, hb, hbs]
    rfl

theorem sprintfReply_some (h : sprintfReply text = some s) : s = text :=
  (Option.some.inj (Option.ite_none_right_eq_some.mp h).2).symm

theorem reply_line (hprint : PrintsNumbers print) (h : reply print r = some text) :
    ∃ x : Said, r.content print = some x ∧ x.Plain ∧ text = x.line ++ [10] := by
  cases r with
  | solution a =>
    obtain ⟨atoms, hatoms, h⟩ := Option.bind_eq_some_iff.mp h
    have hatom (c : Nat) (atom : CString)
        (hc : (a.output c).bind (fun v => sprintfReply (print v ++ [32])) = some atom) :
        ∃ v, a.output c = some v ∧ True ∧ atom = print v ++ [32] := by
      obtain ⟨v, hv, hatom⟩ := Option.bind_eq_some_iff.mp hc
      exact ⟨v, hv, trivial, sprintfReply_some hatom⟩
    obtain ⟨vs, hvs, _, rfl⟩ := mapM_factors hatom hatoms
    refine ⟨.solution (vs.map print), ?_, ?_, ?_⟩
    · rw [Reply.content, hvs]
      rfl
    · exact List.forall_mem_map.mpr fun v _ => hprint v
    · cases h
      rw [Said.line, ended, List.flatMap_map, List.flatMap_def]
      rfl
  | notReady => exact ⟨.notReady, rfl, trivial, sprintfReply_some h⟩
  | problemOk id => exact ⟨.problemOk id, rfl, trivial, sprintfReply_some h⟩
  | answerOk id => exact ⟨.answerOk id, rfl, trivial, sprintfReply_some h⟩
  | memoryError => exact ⟨.memoryError, rfl, trivial, sprintfReply_some h⟩
  | unknownError => exact ⟨.unknownError, rfl, trivial, sprintfReply_some h⟩
  | idle => exact ⟨.idle, rfl, trivial, sprintfReply_some h⟩

theorem mapM_isSome_iff {f : α → Option β} {as : List α} :
    (as.mapM f).isSome ↔ ∀ a ∈ as, (f a).isSome := by
  induction as with
  | nil => exact iff_of_true rfl (List.forall_mem_nil _)
  | cons a as ih =>
    rw [List.forall_mem_cons, ← ih, List.mapM_cons]
    cases f a with
    | none => exact iff_of_false Bool.false_ne_true fun h => Bool.false_ne_true h.1
    | some b => cases as.mapM f <;> simp

theorem printLong_length (n : UInt64) : (printLong n).length ≤ 20 := by
  have hn := n.toNat_lt
  unfold printLong
  split
  · exact (numeral_length_le_iff (by decide) _).mpr (by omega)
  · exact Nat.succ_le_succ ((numeral_length_le_iff (k := 19) (by decide) _).mpr (by omega))

theorem sprintfReply_isSome {text : CString} :
    (sprintfReply text).isSome ↔ text.length + 1 ≤ replyMaxBuffer := by
  unfold sprintfReply
  split
  · next h => exact iff_of_true rfl h
  · next h => exact iff_of_false Bool.false_ne_true h

/-- Only the outputs of a solution can overrun the buffer, or lie outside their array. -/
theorem reply_isSome_iff : (reply print r).isSome ↔
    ∀ a, r = .solution a → ∀ c < a.sizeY.toNat,
      ∃ v, a.output c = some v ∧ (print v).length + 2 ≤ replyMaxBuffer := by
  have hid {s : CString} (hs : s.length ≤ 100) (id : UInt64) :
      (sprintfReply (s ++ printLong id ++ [10])).isSome := by
    have hlength := printLong_length id
    rw [sprintfReply_isSome, List.length_append, List.length_append, replyMaxBuffer]
    change s.length + (printLong id).length + 1 + 1 ≤ 128
    omega
  cases r with
  | solution a =>
    have hreply : reply print (.solution a) = ((List.range a.sizeY.toNat).mapM fun c =>
        (a.output c).bind fun v => sprintfReply (print v ++ [32])).map fun atoms =>
          tokenReplySolution ++ atoms.flatten ++ [10] := Option.map_eq_bind.symm
    have hatom (c : Nat) :
        ((a.output c).bind fun v => sprintfReply (print v ++ [32])).isSome ↔
          ∃ v, a.output c = some v ∧ (print v).length + 2 ≤ replyMaxBuffer := by
      cases a.output c with
      | none =>
        refine iff_of_false Bool.false_ne_true ?_
        rintro ⟨v, he, _⟩
        cases he
      | some v =>
        rw [Option.bind_some, sprintfReply_isSome, List.length_append]
        constructor
        · exact fun h => ⟨v, rfl, h⟩
        · rintro ⟨u, he, h⟩
          exact Option.some.inj he ▸ h
    rw [hreply, Option.isSome_map, mapM_isSome_iff]
    simp only [List.mem_range, hatom, Reply.solution.injEq, forall_eq']
  | problemOk id => exact iff_of_true (hid (by decide) id) fun a he => Reply.noConfusion he
  | answerOk id => exact iff_of_true (hid (by decide) id) fun a he => Reply.noConfusion he
  | _ => exact iff_of_true rfl fun a he => Reply.noConfusion he

/-- The replies to a client can be told from the bytes that it reads: each is known when its last
byte has arrived, whatever is to come. -/
theorem replies_told_apart (hprint : PrintsNumbers print) (h : replyBytes print rs = some bytes)
    (h' : replyBytes print rs' = some bytes') (hbytes : bytes <+: bytes') :
    ∃ xs ys, rs.mapM (Reply.content print) = some xs ∧ rs'.mapM (Reply.content print) = some ys ∧
      xs <+: ys := by
  have hlines {rs : List Reply} {bytes : CString} (h : replyBytes print rs = some bytes) :
      ∃ xs : List Said, rs.mapM (Reply.content print) = some xs ∧ (∀ x ∈ xs, x.Plain) ∧
        bytes = ended 10 (xs.map Said.line) := by
    obtain ⟨texts, htexts, rfl⟩ := Option.map_eq_some_iff.mp h
    obtain ⟨xs, hxs, hplain, rfl⟩ := mapM_factors (fun r text hr => reply_line hprint hr) htexts
    refine ⟨xs, hxs, hplain, ?_⟩
    rw [ended, List.flatMap_map, List.flatMap_def]
  obtain ⟨xs, hxs, hxplain, rfl⟩ := hlines h
  obtain ⟨ys, hys, hyplain, rfl⟩ := hlines h'
  refine ⟨xs, ys, hxs, hys, ?_⟩
  apply ended_front (fun x hx => newline_not_mem_line (hxplain x hx))
    (fun y hy => newline_not_mem_line (hyplain y hy)) ?_ hbytes
  exact fun x hx y hy he => Said.line_inj (hxplain x hx) (hyplain y hy) he

end Texts

section Sample

def printSample (v : UInt64) : CString :=
  if v = 4612811918334230528 then cstr "2.50" else cstr "0.00"

theorem printSample_numbers : PrintsNumbers printSample := by
  intro v
  unfold printSample
  split <;> decide

def repliesSample : List Reply :=
  [.problemOk (-1),
    .solution ⟨1, 0, 1, statusSolved, some ⟨0, 8, fun _ => 4612811918334230528⟩, none⟩, .notReady]

theorem replies_told_apart_sample :
    replyBytes printSample repliesSample =
        some (cstr "ok:problem:-1\nok:solution:2.50 \nwrn:notready\n") ∧
      ∃ xs ys, (repliesSample.take 2).mapM (Reply.content printSample) = some xs ∧
        repliesSample.mapM (Reply.content printSample) = some ys ∧ xs <+: ys := by
  have hfirst : replyBytes printSample (repliesSample.take 2) =
      some (cstr "ok:problem:-1\nok:solution:2.50 \n") := by
    decide +kernel
  have hall : replyBytes printSample repliesSample =
      some (cstr "ok:problem:-1\nok:solution:2.50 \nwrn:notready\n") := by
    decide +kernel
  exact ⟨hall, replies_told_apart printSample_numbers hfirst hall (by decide)⟩

end Sample

end Aiqb
