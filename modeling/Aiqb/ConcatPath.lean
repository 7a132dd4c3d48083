import Aiqb.Paths
import Aiqb.Trim

namespace Aiqb
set_option autoImplicit true

open StringMemory

/-- The loop of `_concat_path`, with `n` steps left before `prefix_len > 0` fails. -/
def stripSlashes : Nat → Cells → Int → Cells × Int
  | 0, m, len => (m.read (len - 1), len)
  | n + 1, m, len =>
    if m.byte (len - 1) = 47 then stripSlashes n (m.read (len - 1)) (len - 1)
    else (m.read (len - 1), len)

def sizeT (n : Int) : Nat := (n % 2 ^ 64).toNat

def concatSize (dirLen fileLen : Int) : Option Int := do
  let n ← checkedInt (dirLen + fileLen)
  let n ← checkedInt (n + 2)
  if dirLen = 0 then checkedInt (n + 1) else some n

/-- The memory of the two strings and of the result, and the size that was allocated for it. -/
structure ConcatRun where
  dir : Cells
  file : Cells
  size : Nat
  concat : Cells

def concatDir (dir : Cells) (len : Int) (concat : Cells) : Cells × Cells × Int :=
  if 0 < len then (dir.readSpan 0 len.toNat, (concat.copy 0 dir len.toNat).write len 47, len)
  else (dir, (concat.write len 46).write (len + 1) 47, len + 1)

/-- `_concat_path` of strings of these lengths, in the memory around them, when a block can be
allocated. -/
def concatPathAt (dir file : Cells) (dirLength fileLength : Nat) (concat : Cells) :
    Option ConcatRun := do
  let strip := stripSlashes (intOf dirLength).toNat (dir.readSpan 0 (dirLength + 1))
    (intOf dirLength)
  let file := file.readSpan 0 (fileLength + 1)
  let fileLen := intOf fileLength
  let size ← concatSize strip.2 fileLen
  let front := concatDir strip.1 strip.2 concat
  some
    { dir := front.1
      file := file.readSpan 0 (sizeT fileLen)
      size := sizeT size
      concat := (front.2.1.copy (front.2.2 + 1) file (sizeT fileLen)).write
        (front.2.2 + fileLen + 1) 0 }

structure EntryPath (dir file path : CString) : Prop where
  absolute : path.head? = some 47 ↔ dir.head? = some 47
  parts : if dir = [] then path = 46 :: 47 :: file
    else path = dir.rdropWhile isSlash ++ 47 :: file

structure ConcatRun.Works (dir file : CString) (r : ConcatRun) : Prop where
  path : ∃ path, r.concat.Holds path ∧ EntryPath dir file path ∧ r.size = path.length + 1
  fits : r.concat.Fits r.size
  dirInside : r.dir.Inside dir.length
  fileInside : r.file.Inside file.length

/-- The directory has a character other than a separator. Its length without the separators at its
end is not above its length as an `int`, and leaves room for the file in an `int`. -/
def ConcatWorks (dir file : CString) : Prop :=
  0 < (dir.rdropWhile isSlash).length ∧ (dir.rdropWhile isSlash).length ≤ intOf dir.length ∧
    (dir.rdropWhile isSlash).length + file.length + 2 < 2 ^ 31

instance (dir file : CString) : Decidable (ConcatWorks dir file) :=
  inferInstanceAs (Decidable (_ ∧ _ ∧ _))

section Strip

variable {m m' : Cells} {len c : Int}

/-- The loop passes over separators, and reads the character in front of what is left. -/
theorem stripSlashes_spec (n : Nat) (m : Cells) (len : Int) :
    ∃ m' c, stripSlashes n m len = (m', c) ∧ m'.byte = m.byte ∧ len - n ≤ c ∧ c ≤ len ∧
      (∀ i, c ≤ i → i < len → m.byte i = 47) ∧ (len - n < c → m.byte (c - 1) ≠ 47) ∧
      c - 1 ∈ m'.touched ∧ ∀ i ∈ m'.touched, i ∈ m.touched ∨ c - 1 ≤ i ∧ i < len := by
  induction n generalizing m len with
  | zero =>
    refine ⟨m.read (len - 1), len, rfl, rfl, by omega, Int.le_refl _, fun i _ _ => by omega,
      fun hlt => by omega, List.mem_cons_self, ?_⟩
    intro i hi
    rcases List.mem_cons.mp hi with rfl | hi
    · exact .inr ⟨Int.le_refl _, by omega⟩
    · exact .inl hi
  | succ n ih =>
    by_cases hslash : m.byte (len - 1) = 47
    · obtain ⟨m', c, he, hbyte, hge, hle, hall, hstop, hread, htouch⟩ :=
        ih (m.read (len - 1)) (len - 1)
      refine ⟨m', c, by rw [stripSlashes, if_pos hslash, he], hbyte, by omega, by omega, ?_,
        fun hlt => hstop (by omega), hread, ?_⟩
      · intro i hci hi
        by_cases hlast : i = len - 1
        · exact hlast ▸ hslash
        · exact hall i hci (by omega)
      · intro i hi
        rcases htouch i hi with hi | hi
        · rcases List.mem_cons.mp hi with rfl | hi
          · exact .inr ⟨by omega, by omega⟩
          · exact .inl hi
        · exact .inr ⟨hi.1, by omega⟩
    · refine ⟨m.read (len - 1), len, by rw [stripSlashes, if_neg hslash], rfl, by omega,
        Int.le_refl _, fun i _ _ => by omega, fun _ => hslash, List.mem_cons_self, ?_⟩
      intro i hi
      rcases List.mem_cons.mp hi with rfl | hi
      · exact .inr ⟨Int.le_refl _, by omega⟩
      · exact .inl hi

end Strip

section Stripped

variable {dir : CString}

theorem slash_behind {i : Nat} (hp : (dir.rdropWhile isSlash).length ≤ i) (hi : i < dir.length) :
    dir.getD i 0 = 47 := by
  have hall : ∀ b ∈ dir.rtakeWhile isSlash, b = 47 := fun b hb =>
    of_decide_eq_true (p := b = 47) (List.mem_rtakeWhile_imp (p := isSlash) hb)
  have hdir := List.rdropWhile_append_rtakeWhile (p := isSlash) (l := dir)
  have hlen := congrArg List.length hdir
  rw [List.length_append] at hlen
  rw [← hdir, List.getD_append_right _ _ _ _ hp, List.getD_eq_getElem _ _ (by omega)]
  exact hall _ (List.getElem_mem _)

theorem last_not_slash (hp : 0 < (dir.rdropWhile isSlash).length) :
    dir.getD ((dir.rdropWhile isSlash).length - 1) 0 ≠ 47 := by
  have hne : dir.rdropWhile isSlash ≠ [] := List.ne_nil_of_length_pos hp
  have hlast := List.rdropWhile_last_not isSlash dir hne
  have hdir := List.rdropWhile_append_rtakeWhile (p := isSlash) (l := dir)
  intro he
  apply hlast
  rw [List.getLast_eq_getElem, isSlash, decide_eq_true_eq, ← he]
  conv_rhs => rw [← hdir]
  rw [List.getD_append _ _ _ _ (by rw [hdir]; omega),
    List.getD_eq_getElem _ _ (by rw [hdir]; omega)]
  simp only [hdir]

theorem stripped_take (dir : CString) :
    dir.take (dir.rdropWhile isSlash).length = dir.rdropWhile isSlash :=
  (List.prefix_iff_eq_take.mp (List.rdropWhile_prefix isSlash dir)).symm

theorem entryPath_nonempty (hne : dir ≠ []) (hp : dir.rdropWhile isSlash ≠ []) (file : CString) :
    EntryPath dir file (dir.rdropWhile isSlash ++ 47 :: file) := by
  refine ⟨?_, by rw [if_neg hne]⟩
  obtain ⟨rest, hrest⟩ := List.rdropWhile_prefix isSlash (l := dir)
  rw [List.head?_append_of_ne_nil _ hp]
  conv_rhs => rw [← hrest]
  rw [List.head?_append_of_ne_nil _ hp]

end Stripped

section Written

variable {dir file : CString} {d f : Cells} {k j : Nat}

theorem concat_written (hd : d.Begins (dir.take k)) (hf : f.Begins (file.take j))
    (hk : k ≤ dir.length) (hj : j ≤ file.length) (hdir : 0 ∉ dir) (hfile : 0 ∉ file)
    (byte : Int → UInt8) {m : Cells}
    (hm : m = ((((Cells.fresh byte).copy 0 d k).write k 47).copy (k + 1) f j).write (k + j + 1) 0) :
    m.Holds (dir.take k ++ 47 :: file.take j) ∧ m.Fits (k + j + 2) := by
  have hk' : (dir.take k).length = k := List.length_take_of_le hk
  have hj' : (file.take j).length = j := List.length_take_of_le hj
  have hdirs : ((Cells.fresh byte).copy 0 d k).Begins (dir.take k) := by
    have h := (Cells.Begins.nil (Cells.fresh byte)).copy hd
    rw [hk'] at h
    exact h
  have hslash := hdirs.write 47
  have hfiles := hslash.copy hf
  have hend := hfiles.write 0
  simp only [List.length_append, List.length_singleton, hk', hj', Int.natCast_add,
    Int.natCast_one] at hend
  have hplain : 0 ∉ dir.take k ++ [47] ++ file.take j := by
    simp only [List.mem_append, List.mem_singleton]
    rintro ((h | h) | h)
    · exact hdir (List.mem_of_mem_take h)
    · exact absurd h (by decide)
    · exact hfile (List.mem_of_mem_take h)
  have hplace : (k : Int) + 1 + j = k + j + 1 := by omega
  rw [hplace, ← hm] at hend
  constructor
  · have hholds := hend.holds hplain
    rw [List.append_assoc, List.singleton_append] at hholds
    exact hholds
  · rw [hm]
    have hfresh : (Cells.fresh byte).Fits (k + j + 2) := fun _ hi => nomatch hi
    exact (((hfresh.copy (by omega) d).write (by omega) 47).copy (by omega) f).write (by omega) 0

theorem concatSize_pos (hc : 0 < c) :
    concatSize c l = some n ↔ n = c + l + 2 ∧ -2 ^ 31 ≤ c + l ∧ c + l + 2 < 2 ^ 31 := by
  unfold concatSize checkedInt
  by_cases hsum : -2 ^ 31 ≤ c + l ∧ c + l < 2 ^ 31
  · by_cases hroom : -2 ^ 31 ≤ c + l + 2 ∧ c + l + 2 < 2 ^ 31
    · rw [if_pos hsum, Option.bind_eq_bind, Option.bind_some, if_pos hroom, Option.bind_some,
        if_neg (by omega), Option.some.injEq]
      omega
    · rw [if_pos hsum, Option.bind_eq_bind, Option.bind_some, if_neg hroom, Option.bind_none]
      simp only [reduceCtorEq, false_iff]
      omega
  · rw [if_neg hsum, Option.bind_eq_bind, Option.bind_none]
    simp only [reduceCtorEq, false_iff]
    omega

theorem concatDir_pos (hc : 0 < c) (d m : Cells) :
    concatDir d c m = (d.readSpan 0 c.toNat, (m.copy 0 d c.toNat).write c 47, c) := if_pos hc

theorem concatDir_touched (d m : Cells) (c : Int) (h : i ∈ d.touched) :
    i ∈ (concatDir d c m).1.touched := by
  unfold concatDir
  split
  · exact List.mem_append_right _ h
  · exact h

end Written

section Lengths

variable {dir file : CString} {outside outside' byte : Int → UInt8} {r : ConcatRun}

theorem strip_run (dir : CString) (outside : Int → UInt8) :
    ∃ d c, stripSlashes (intOf dir.length).toNat
        ((Cells.ofString dir outside).readSpan 0 (dir.length + 1)) (intOf dir.length) = (d, c) ∧
      d.byte = (Cells.ofString dir outside).byte ∧ c - 1 ∈ d.touched ∧ c ≤ intOf dir.length ∧
      (0 < c → d.Inside dir.length) ∧ (0 < c → c ≤ (dir.rdropWhile isSlash).length) ∧
      (((dir.rdropWhile isSlash).length : Int) ≤ intOf dir.length →
        (dir.rdropWhile isSlash).length ≤ c) := by
  obtain ⟨d, c, he, hbyte, hge, hle, hall, hstop, hread, htouch⟩ :=
    stripSlashes_spec (intOf dir.length).toNat
      ((Cells.ofString dir outside).readSpan 0 (dir.length + 1)) (intOf dir.length)
  have hlen := intOf_le dir.length
  have hchar {i : Nat} (hi : i ≤ dir.length) :
      ((Cells.ofString dir outside).readSpan 0 (dir.length + 1)).byte i = dir.getD i 0 :=
    Cells.ofString_byte dir outside hi
  refine ⟨d, c, he, hbyte, hread, hle, ?_, ?_, ?_⟩
  · intro hpos i hi
    rcases htouch i hi with hi | hi
    · exact ((Cells.ofString_inside dir outside _).readSpan (Int.le_refl 0) (by omega)) i hi
    · omega
  · intro hpos
    by_contra hlt
    have hk : c - 1 = (c.toNat - 1 : Nat) := by omega
    have hne := hstop (by omega)
    rw [hk, hchar (by omega)] at hne
    exact hne (slash_behind (by omega) (by omega))
  · intro hp
    by_contra hlt
    have hpos : 0 < (dir.rdropWhile isSlash).length := by omega
    have hslash := hall ((dir.rdropWhile isSlash).length - 1 : Nat) (by omega) (by omega)
    rw [hchar (by omega)] at hslash
    exact last_not_slash hpos hslash

/-- Where a directory is left, the path is written to a block of its size. -/
theorem concat_run {d : Cells} {c l : Int}
    (hstrip : stripSlashes (intOf dir.length).toNat
      ((Cells.ofString dir outside).readSpan 0 (dir.length + 1)) (intOf dir.length) = (d, c))
    (hd : d.byte = (Cells.ofString dir outside).byte) (hin : d.Inside dir.length) (hc : 0 < c)
    (hcl : c ≤ dir.length) (hl : intOf file.length = l) (hl0 : 0 ≤ l) (hsum : c + l + 2 < 2 ^ 31)
    (hdir : 0 ∉ dir) (hfile : 0 ∉ file) (outside' byte : Int → UInt8) :
    ∃ r, concatPathAt (.ofString dir outside) (.ofString file outside') dir.length file.length
        (.fresh byte) = some r ∧
      r.concat.Holds (dir.take c.toNat ++ 47 :: file.take l.toNat) ∧
      r.size = c.toNat + l.toNat + 2 ∧ r.concat.Fits r.size ∧
      r.dir.Inside dir.length ∧ r.file.Inside file.length := by
  have hle := intOf_le file.length
  have hsize : concatSize c l = some (c + l + 2) := (concatSize_pos hc).mpr ⟨rfl, by omega, hsum⟩
  have hlen : sizeT l = l.toNat := by
    unfold sizeT
    omega
  have hblock : sizeT (c + l + 2) = c.toNat + l.toNat + 2 := by
    unfold sizeT
    omega
  have hfront : d.Begins (dir.take c.toNat) := by
    intro i hi
    rw [hd]
    exact Cells.ofString_begins dir outside c.toNat i hi
  obtain ⟨hholds, hfits⟩ := concat_written hfront
    (f := (Cells.ofString file outside').readSpan 0 (file.length + 1))
    (Cells.ofString_begins file outside' l.toNat) (by omega) (by omega) hdir hfile byte rfl
  rw [Int.toNat_of_nonneg (by omega), Int.toNat_of_nonneg hl0] at hholds hfits
  have hread := (Cells.ofString_inside file outside' file.length).readSpan (Int.le_refl 0)
    (k := file.length + 1) (by omega)
  have hrun : concatPathAt (.ofString dir outside) (.ofString file outside') dir.length file.length
      (.fresh byte) = some
        { dir := d.readSpan 0 c.toNat
          file := ((Cells.ofString file outside').readSpan 0 (file.length + 1)).readSpan 0 l.toNat
          size := c.toNat + l.toNat + 2
          concat := ((((Cells.fresh byte).copy 0 d c.toNat).write c 47).copy (c + 1)
            ((Cells.ofString file outside').readSpan 0 (file.length + 1)) l.toNat).write
              (c + l + 1) 0 } := by
    simp only [concatPathAt, hstrip, hl, hsize, concatDir_pos hc, hlen, hblock, Option.bind_eq_bind,
      Option.bind_some]
  exact ⟨_, hrun, hholds, rfl, hfits, hin.readSpan (Int.le_refl 0) (by omega),
    hread.readSpan (Int.le_refl 0) (by omega)⟩

theorem concat_steps {d : Cells} {c : Int}
    (hstrip : stripSlashes (intOf dir.length).toNat
      ((Cells.ofString dir outside).readSpan 0 (dir.length + 1)) (intOf dir.length) = (d, c))
    (h : concatPathAt (.ofString dir outside) (.ofString file outside') dir.length file.length
      (.fresh byte) = some r) :
    ∃ size, concatSize c (intOf file.length) = some size ∧
      r.dir = (concatDir d c (.fresh byte)).1 ∧ r.size = sizeT size ∧
      r.concat = (((concatDir d c (.fresh byte)).2.1.copy ((concatDir d c (.fresh byte)).2.2 + 1)
        ((Cells.ofString file outside').readSpan 0 (file.length + 1))
        (sizeT (intOf file.length))).write
          ((concatDir d c (.fresh byte)).2.2 + intOf file.length + 1) 0) := by
  simp only [concatPathAt, hstrip, Option.bind_eq_bind] at h
  obtain ⟨size, hsize, he⟩ := Option.bind_eq_some_iff.mp h
  cases Option.some.inj he
  exact ⟨size, hsize, rfl, rfl, rfl⟩

theorem ne_nil_of_intOf_pos (h : 0 < intOf dir.length) : dir ≠ [] := by
  rintro rfl
  exact absurd h (by decide)

theorem concatWorks_of_path {c l : Int} (hc : 0 < c) (hlen : c ≤ intOf dir.length)
    (hp : c ≤ (dir.rdropWhile isSlash).length) (hl : 0 ≤ l) (hk : l ≤ file.length)
    (hsum : c + l + 2 < 2 ^ 31)
    (h : dir.take c.toNat ++ 47 :: file.take l.toNat = dir.rdropWhile isSlash ++ 47 :: file) :
    ConcatWorks dir file := by
  have hlens := congrArg List.length h
  have hle := intOf_le dir.length
  simp only [List.length_append, List.length_cons, List.length_take] at hlens
  have hdir : c.toNat = (dir.rdropWhile isSlash).length := by omega
  refine ⟨by omega, by omega, by omega⟩

theorem file_length_nonneg {m f : Cells} {c l : Int} (hc : 0 < c)
    (hsize : concatSize c l = some n)
    (h : ((m.copy (c + 1) f (sizeT l)).write (c + l + 1) 0).Fits (sizeT n)) (hl : -2 ^ 31 ≤ l) :
    0 ≤ l := by
  by_contra hneg
  obtain ⟨rfl, _, _⟩ := (concatSize_pos hc).mp hsize
  have hend := h (c + l + 1) List.mem_cons_self
  have hlen : sizeT l = (2 ^ 64 + l).toNat := by
    unfold sizeT
    omega
  have hblock : sizeT (c + l + 2) = (c + l + 2).toNat := by
    unfold sizeT
    omega
  have hlast : c + (2 ^ 64 + l) ∈ ((m.copy (c + 1) f (sizeT l)).write (c + l + 1) 0).touched := by
    apply List.mem_cons_of_mem
    apply List.mem_append_left
    rw [Cells.mem_span, hlen]
    omega
  have hin := h _ hlast
  rw [hblock] at hin
  omega

theorem here_written {f : Cells} (hf : f.Begins file) (hfile : 0 ∉ file) (m : Cells) :
    ((((m.write 0 46).write 1 47).copy 2 f file.length).write (1 + file.length + 1) 0).Holds
      (46 :: 47 :: file) := by
  have hplain : 0 ∉ 46 :: 47 :: file := by simpa using hfile
  have hend := ((((Cells.Begins.nil m).write 46).write 47).copy hf).write 0
  have hplace : (1 : Int) + file.length + 1 = ([46, 47] ++ file : CString).length := by
    rw [List.length_append]
    exact (by omega : (1 : Int) + file.length + 1 = (2 + file.length : Nat))
  rw [hplace]
  exact hend.holds hplain

theorem concatPathAt_short (hdir : 0 ∉ dir) (hfile : 0 ∉ file)
    (hlen : dir.length + file.length + 3 < 2 ^ 31) (outside outside' byte : Int → UInt8) :
    ∃ r, concatPathAt (.ofString dir outside) (.ofString file outside') dir.length file.length
        (.fresh byte) = some r ∧ r.concat.Holds (concatPath dir file) := by
  obtain ⟨d, c, hstrip, hd, _, hle, hin, hp, hp'⟩ := strip_run dir outside
  have hl : intOf file.length = file.length := intOf_short (by omega)
  have hdl : intOf dir.length = dir.length := intOf_short (by omega)
  have hpre := (List.rdropWhile_prefix isSlash (l := dir)).length_le
  have hpc := hp' (by omega)
  by_cases hc : 0 < c
  · have hcp := hp hc
    obtain ⟨r, hrun, hholds, _⟩ := concat_run hstrip hd (hin hc) hc (by omega) hl
      (by omega) (by omega) hdir hfile outside' byte
    have hk : c.toNat = (dir.rdropWhile isSlash).length := by omega
    have hne : dir.rdropWhile isSlash ≠ [] := List.ne_nil_of_length_pos (by omega)
    rw [hk, Int.toNat_natCast, List.take_length, stripped_take] at hholds
    exact ⟨r, hrun, by rw [concatPath, if_neg hne]; exact hholds⟩
  · have hnil : dir.rdropWhile isSlash = [] := List.eq_nil_of_length_eq_zero (by omega)
    obtain rfl : c = 0 := by omega
    have hsize : concatSize 0 file.length = some ((file.length : Int) + 3) := by
      unfold concatSize checkedInt
      rw [if_pos (by omega), Option.bind_eq_bind, Option.bind_some, if_pos (by omega),
        Option.bind_some, if_pos rfl, if_pos (by omega), Option.some.injEq]
      omega
    have hcopy : sizeT file.length = file.length := by
      unfold sizeT
      omega
    have hread := Cells.ofString_begins file outside' file.length
    rw [List.take_length] at hread
    have hholds := here_written (f := (Cells.ofString file outside').readSpan 0 (file.length + 1))
      hread hfile (.fresh byte)
    have hdirs : concatDir d 0 (.fresh byte) =
        (d, ((Cells.fresh byte).write 0 46).write 1 47, 1) := rfl
    have hrun : concatPathAt (.ofString dir outside) (.ofString file outside') dir.length
        file.length (.fresh byte) = some
          { dir := d
            file := ((Cells.ofString file outside').readSpan 0 (file.length + 1)).readSpan 0
              file.length
            size := sizeT ((file.length : Int) + 3)
            concat := ((((Cells.fresh byte).write 0 46).write 1 47).copy 2
              ((Cells.ofString file outside').readSpan 0 (file.length + 1)) file.length).write
                (1 + file.length + 1) 0 } := by
      simp only [concatPathAt, hstrip, hl, hsize, hdirs, hcopy, Option.bind_eq_bind,
        Option.bind_some]
      rfl
    exact ⟨_, hrun, by rw [concatPath, if_pos hnil]; exact hholds⟩

end Lengths

/-- A path is the one of the entry, and no other memory is touched, exactly under the condition. -/
theorem concat_path_iff (hdir : 0 ∉ dir) (hfile : 0 ∉ file) (outside outside' byte : Int → UInt8) :
    (∃ r, concatPathAt (.ofString dir outside) (.ofString file outside') dir.length file.length
        (.fresh byte) = some r ∧ r.Works dir file) ↔ ConcatWorks dir file := by
  obtain ⟨d, c, hstrip, hd, hread, hle, hin, hp, hp'⟩ := strip_run dir outside
  have hlen := intOf_le dir.length
  constructor
  · rintro ⟨r, hrun, hpath, hfits, hdirInside, hfileInside⟩
    obtain ⟨size, hsize, hrdir, hrsize, hrconcat⟩ := concat_steps hstrip hrun
    have hc : 0 < c := by
      have hfirst := hdirInside (c - 1) (hrdir ▸ concatDir_touched d _ c hread)
      omega
    rw [hrsize, hrconcat, concatDir_pos hc] at hfits
    have hl := file_length_nonneg hc hsize hfits (intOf_bounds file.length).1
    obtain ⟨rfl, _, hsum⟩ := (concatSize_pos hc).mp hsize
    obtain ⟨r', hrun', hholds, _⟩ := concat_run hstrip hd (hin hc) hc
      (Int.le_trans hle hlen) rfl hl hsum hdir hfile outside' byte
    obtain rfl : r = r' := Option.some.inj (hrun.symm.trans hrun')
    obtain ⟨path, hholds', hentry, _⟩ := hpath
    have hne := ne_nil_of_intOf_pos (Int.lt_of_lt_of_le hc hle)
    have hparts := hentry.parts
    rw [if_neg hne, ← hholds.unique hholds'] at hparts
    exact concatWorks_of_path hc hle (hp hc) hl (intOf_le file.length) hsum hparts
  · rintro ⟨hpos, hfit, hsum⟩
    have hpc := hp' hfit
    have hc : 0 < c := by omega
    have hcp := hp hc
    have hl : intOf file.length = file.length := intOf_short (by omega)
    obtain ⟨r, hrun, hholds, hsize, hfits, hdirInside, hfileInside⟩ := concat_run hstrip hd
      (hin hc) hc (by omega) hl (by omega) (by omega) hdir hfile outside' byte
    have hk : c.toNat = (dir.rdropWhile isSlash).length := by omega
    rw [hk, Int.toNat_natCast, List.take_length, stripped_take] at hholds
    have hne : dir ≠ [] := by
      rintro rfl
      exact absurd hpos (by decide)
    refine ⟨r, hrun, ⟨_, hholds, entryPath_nonempty hne (List.ne_nil_of_length_pos hpos) file, ?_⟩,
      hfits, hdirInside, hfileInside⟩
    rw [hsize, hk, Int.toNat_natCast, List.length_append, List.length_cons]
    omega

theorem concat_path_entry :
    ∃ r, concatPathAt (.ofString (cstr "/db/") fun _ => 0) (.ofString (cstr "p1.aiq") fun _ => 0)
        4 6 (.fresh fun _ => 0) = some r ∧ r.Works (cstr "/db/") (cstr "p1.aiq") :=
  (concat_path_iff (by decide) (by decide) _ _ _).mpr (by decide)

/-- An entry of the root directory is taken for one of the current directory. -/
theorem concat_path_root :
    ¬ ∃ r, concatPathAt (.ofString [47] fun _ => 0) (.ofString (cstr "p1.aiq") fun _ => 0) 1 6
        (.fresh fun _ => 0) = some r ∧ r.Works [47] (cstr "p1.aiq") := by
  rintro ⟨r, hrun, hworks⟩
  have hread : (concatPathAt (.ofString [47] fun _ => 0) (.ofString (cstr "p1.aiq") fun _ => 0) 1 6
      (.fresh fun _ => 0)).any fun r => -1 ∈ r.dir.touched := by decide
  rw [hrun, Option.any_some, decide_eq_true_eq] at hread
  exact absurd (hworks.dirInside (-1) hread).1 (by decide)

end Aiqb
