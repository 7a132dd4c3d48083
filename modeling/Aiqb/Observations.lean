import Aiqb.ParserTwins

namespace Aiqb
set_option autoImplicit true

/-- Two runs that read the same bytes, each in its own environment. -/
def twoRuns (t : Tree) : Parser Daemon × Parser Daemon → (Library × Library) × UInt8 →
    Option (Parser Daemon × Parser Daemon) :=
  sideBySide (readStep fun i => daemonEnv t i.1) (readStep fun i => daemonEnv t i.2)

structure TokenSettled (t : Tree) (x : Parser Daemon × Parser Daemon)
    (e : (Library × Library) × UInt8) : Prop where
  integer : x.1.EndsToken e.2 → (x.1.tokenFlags.count e.2).isInteger →
    IntegerSettled t e.1.1 (atoul x.1.token) x.1 x.2
  float : x.1.EndsToken e.2 → (x.1.tokenFlags.count e.2).isFloat → FloatSettled x.1 x.2

/-- The clients were sent the same, and the answers have the same ids. -/
structure SameObserved (x : Parser Daemon × Parser Daemon) : Prop where
  replies : x.2.replies = x.1.replies
  status : x.2.status = x.1.status
  answers : ∃ xs, Ring x.1.world.answers.heap x.1.world.answers.answers xs ∧
    Ring x.2.world.answers.heap x.2.world.answers.answers xs ∧
    idsOf x.2.world.answers.heap.valOf xs = idsOf x.1.world.answers.heap.valOf xs

namespace Parser.Twin

variable {t : Tree} {lib lib' : Library} {s s' : Parser Daemon}

theorem observed (h : s.Twin s') : SameObserved (s, s') := by
  obtain ⟨xs, hxs⟩ := h.answers
  exact ⟨h.replies, h.status, xs, hxs.left, hxs.right, hxs.ids⟩

theorem start {w : Daemon} (hr : Ring w.answers.heap w.answers.answers xs) (c : UInt8) :
    (Parser.start w c).Twin (.start w c) where
  lexer := .refl _
  state := .idle
  index := rfl
  answers := by
    refine ⟨xs, hr, hr, rfl, ?_⟩
    intro p hp
    obtain ⟨a, ha⟩ := Heap.live_iff_val.mp (hr.live hp)
    have hnode : Option.Rel AnswerT.Alike (some a) (some a) := .some (.refl a)
    rwa [← ha] at hnode
  store := ⟨rfl, rfl⟩
  replies := rfl
  status := rfl

theorem parserChar (hlib : lib.Alike lib') (h : s.Twin s') (hr : s.status = .reading) (c : UInt8)
    (hok : TokenSettled t (s, s') ((lib, lib'), c)) :
    (parserChar (daemonEnv t lib) s c).Twin (parserChar (daemonEnv t lib') s' c) := by
  have hinteger := hok.integer
  have hfloat := hok.float
  obtain ⟨hchar, hstate, hflags, htoken⟩ := h.lexer
  obtain ⟨_, _, _, _, _, _, _, _, _⟩ := s
  obtain ⟨_, _, flags, token, _, _, _, _, _⟩ := s'
  dsimp only at hchar hstate hflags htoken hinteger hfloat hr
  subst hchar hstate hflags htoken
  unfold Aiqb.parserChar
  dsimp only
  split
  · split
    · exact h.relexed c .idle flags []
    · exact h.relexed c .comment flags token
  · split
    · exact h.relexed c .comment flags []
    · next hcomment =>
      unfold storeChar
      dsimp only
      split
      · split
        · next hend =>
          split
          · exact h.relexed 0 .idle (flags.count c) token
          · next hne =>
            have hread := h.relexed 0 .idle (flags.count c) token
            have hint := hinteger ⟨hr, rfl, hend, hne⟩
            have hfl := hfloat ⟨hr, rfl, hend, hne⟩
            have hanalysed := analyse hlib hread hr
              (fun hi => ⟨(hint hi).asked, (hint hi).tests, (hint hi).answer⟩)
              fun hf => ⟨(hfl hf).problem, (hfl hf).answer⟩
            exact hanalysed.andThen fun _ => hanalysed.renewed
        · exact h.relexed c .idle (flags.count c) (token ++ [c])
      · exact h.stopped _

end Parser.Twin

/-- Where all that the analysis reads is settled, what the clients observe does not depend on the
contents of fresh memory. -/
theorem observed_alike (t : Tree) {w : Daemon} (c₀ : UInt8)
    (hr : Ring w.answers.heap w.answers.answers xs) {es : List ((Library × Library) × UInt8)}
    (hlib : ∀ e ∈ es, e.1.1.Alike e.1.2)
    (hok : StepsMeet (twoRuns t) (TokenSettled t) (.start w c₀, .start w c₀) es) :
    AllReached (twoRuns t) SameObserved (.start w c₀, .start w c₀) es := by
  have hmeets : StepsMeet (twoRuns t) (fun x e => TokenSettled t x e ∧ e.1.1.Alike e.1.2)
      (.start w c₀, .start w c₀) es := by
    intro pre e x hp hx
    have hmem : e ∈ es := hp.subset (List.mem_append_right _ (List.mem_singleton_self e))
    exact ⟨hok pre e x hp hx, hlib e hmem⟩
  refine hmeets.allReached (I := fun x => x.1.Twin x.2) ?_ ?_ ?_
  · exact Parser.Twin.start hr c₀
  · rintro ⟨s, s'⟩ ⟨⟨lib, lib'⟩, c⟩ ⟨u, u'⟩ htwin ⟨hsettled, halike⟩ hstep
    obtain ⟨hs, hs'⟩ := sideBySide_iff.mp hstep
    obtain ⟨hread, hu⟩ := readStep_iff.mp hs
    obtain ⟨_, hu'⟩ := readStep_iff.mp hs'
    dsimp only at hu hu'
    subst hu hu'
    exact htwin.parserChar halike hread c hsettled
  · exact fun x hx => hx.observed

/-- A message about answers is settled at a byte: what is read was assigned, and a completed answer
came with the same id. -/
def answerSettled (s s' : Parser Daemon) (c : UInt8) : Bool :=
  match s.state, s'.state with
  | .idle, _ => true
  | .answer d, .answer d' =>
    (s.index.toNat != 2 || d.assigned .sizeX) &&
      (!(s.tokenFlags.count c).isFloat ||
        d.assigned .sizeX && d.assigned .sizeY && d'.val.id == d.val.id)
  | _, _ => false

theorem TokenSettled.of_answerSettled (h : answerSettled s s' c) :
    TokenSettled t (s, s') ((lib, lib'), c) := by
  unfold answerSettled at h
  split at h
  · next hs =>
    refine ⟨fun _ _ => ⟨?_, ?_, ?_⟩, fun _ _ => ⟨?_, ?_⟩⟩ <;>
      intro d d' hd <;> cases hs.symm.trans hd
  · next d d' hs hs' =>
    simp only [Bool.and_eq_true, Bool.or_eq_true, bne_iff_ne, Bool.not_eq_true', beq_iff_eq] at h
    obtain ⟨hasked, hfloat⟩ := h
    constructor
    · refine fun _ _ => ⟨?_, ?_, ?_⟩
      · intro e e' he
        cases hs.symm.trans he
      · intro e e' he
        cases hs.symm.trans he
      · intro e e' he he' hi
        cases hs.symm.trans he
        exact List.forall_mem_singleton.mpr (.inl (hasked.resolve_left (not_not_intro hi)))
    · refine fun _ hf => ⟨?_, ?_⟩
      · intro e e' he
        cases hs.symm.trans he
      · intro e e' he he'
        cases hs.symm.trans he
        cases hs'.symm.trans he'
        obtain ⟨⟨hsizeX, hsizeY⟩, hid⟩ := hfloat.resolve_left fun hn => by
          rw [show (s.tokenFlags.count c).isFloat = true from hf] at hn
          cases hn
        have hknown : Known d.assigned d.val.field d'.val.field [.sizeX, .sizeY] := by
          intro slot hm
          rcases List.mem_pair.mp hm with rfl | rfl
          · exact .inl hsizeX
          · exact .inl hsizeY
        exact ⟨.inl hknown, .inl hknown, fun _ => hid⟩
  · cases h

theorem settled_of_take {bytes : List UInt8}
    (h : ∀ n, ∀ hn : n < bytes.length,
      answerSettled (parse (daemonEnv t lib) s (bytes.take n))
        (parse (daemonEnv t lib') s' (bytes.take n)) bytes[n]) :
    StepsMeet (twoRuns t) (TokenSettled t) (s, s') (bytes.map ((lib, lib'), ·)) := by
  rintro pre e ⟨u, u'⟩ hp hrun
  obtain ⟨hleft, hright⟩ := Run.sideBySide_iff.mp hrun
  obtain ⟨post, hpost⟩ := hp
  rw [List.append_assoc] at hpost
  obtain ⟨bytes₁, rest, rfl, rfl, hrest⟩ := List.map_eq_append_iff.mp hpost.symm
  obtain ⟨c, cs, rfl, rfl, -⟩ := List.map_eq_cons_iff.mp hrest
  have hn := h bytes₁.length (by simp)
  rw [List.take_left, parse_of_run hleft, parse_of_run hright] at hn
  apply TokenSettled.of_answerSettled
  simpa using hn

def Library.answerWith (id sizeX : UInt64) : Library :=
  { Library.sample with
    malloc := fun n => some ⟨0, n, fun _ => 0⟩
    mallocAnswer := some (0, { AnswerT.oneRow with id := id, sizeX := sizeX }) }

theorem Library.answerWith_alike (id id' sizeX sizeX' : UInt64) :
    (Library.answerWith id sizeX).Alike (.answerWith id' sizeX') :=
  ⟨rfl, fun _ => rfl, rfl, rfl, rfl, rfl⟩

def Daemon.oneProblem : Daemon :=
  ((aiqbdRegisterProblem .sample .sample ⟨.start 1, .sample⟩ (.oneRow 0)).getD
    (0, ⟨.start 1, .sample⟩)).2

def oneOutput : List UInt8 := cstr "reg:answer 1 1 0 1.0 "

theorem run_of_parses {bytes : List UInt8}
    (hr : (parse (daemonEnv t lib) s bytes).status = .reading)
    (hr' : (parse (daemonEnv t lib') s' bytes).status = .reading) :
    Run (twoRuns t) (s, s') (bytes.map ((lib, lib'), ·))
      (parse (daemonEnv t lib) s bytes, parse (daemonEnv t lib') s' bytes) :=
  Run.sideBySide_iff.mpr
    ⟨run_of_parse (fun i : Library × Library => daemonEnv t i.1) (lib, lib') hr,
      run_of_parse (fun i : Library × Library => daemonEnv t i.2) (lib, lib') hr'⟩

theorem answerWith_alike_events (id id' sizeX sizeX' : UInt64) (bytes : List UInt8) :
    ∀ e ∈ bytes.map ((Library.answerWith id sizeX, Library.answerWith id' sizeX'), ·),
      e.1.1.Alike e.1.2 := by
  intro e he
  obtain ⟨c, _, rfl⟩ := List.mem_map.mp he
  exact Library.answerWith_alike id id' sizeX sizeX'

/-- The size that the fresh memory holds is not observed. -/
theorem observed_alike_oneOutput :
    SameObserved (parse (daemonEnv .sample (.answerWith 0 1)) (.start .oneProblem 0) oneOutput,
      parse (daemonEnv .sample (.answerWith 0 7)) (.start .oneProblem 0) oneOutput) := by
  have hall := observed_alike .sample (w := .oneProblem) 0 (.nil _)
    (answerWith_alike_events 0 0 1 7 oneOutput) (settled_of_take (by decide))
  exact hall.of_run (run_of_parses (by decide) (by decide))

/-- The id that the fresh memory holds is the one that the client is told. -/
theorem observed_not_alike :
    ¬ ∀ es : List ((Library × Library) × UInt8), (∀ e ∈ es, e.1.1.Alike e.1.2) →
      AllReached (twoRuns .sample) SameObserved
        (.start .oneProblem 0, .start .oneProblem 0) es := by
  intro h
  have hall := h _ (answerWith_alike_events 5 7 1 1 oneOutput)
  have hsame := hall.of_run (run_of_parses (by decide) (by decide))
  have hleft : (parse (daemonEnv .sample (.answerWith 5 1)) (.start .oneProblem 0)
      oneOutput).replies = [.answerOk 5] := by rfl
  have hright : (parse (daemonEnv .sample (.answerWith 7 1)) (.start .oneProblem 0)
      oneOutput).replies = [.answerOk 7] := by rfl
  have hreplies := hsame.replies
  rw [hleft, hright] at hreplies
  cases hreplies

end Aiqb
