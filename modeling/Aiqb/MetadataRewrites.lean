import Aiqb.PackHeader

namespace Aiqb
set_option autoImplicit true

/-- A call of `_problem_write_metadata`: the time and the padding that it finds, and the header. -/
structure MetadataWrite where
  now : UInt64
  pad : MetadataPadding
  header : FileHeader

def MetadataWrite.apply (file : List UInt8) (m : MetadataWrite) : List UInt8 :=
  problemWriteMetadata m.now m.pad m.header file

def rewriteMetadata (file : List UInt8) (ms : List MetadataWrite) : List UInt8 :=
  ms.foldl MetadataWrite.apply file

def lastHeader (h : FileHeader) (ms : List MetadataWrite) : FileHeader :=
  ms.foldl (fun _ m => m.header) h

/-- The second file has the bytes of the first one behind the metadata, and its metadata is that of
the header but for the time. -/
structure RewrittenWith (h : FileHeader) (file file' : List UInt8) : Prop where
  long : 48 ≤ file.length
  read : ∃ time, problemReadMetadata file' = some { h with time := time }
  rest : file'.drop 48 = file.drop 48
  length : file'.length = file.length

theorem readMetadata_written (now : UInt64) (pad : MetadataPadding) (h : FileHeader)
    (file : List UInt8) :
    problemReadMetadata (problemWriteMetadata now pad h file) = some { h with time := now } :=
  readMetadata_metadataBytes _ pad _

theorem RewrittenWith.step (hr : RewrittenWith h file file') (m : MetadataWrite) :
    RewrittenWith m.header file (m.apply file') := by
  have hlong := hr.long
  have hlen := metadataBytes_length { m.header with time := m.now } m.pad
  refine ⟨hlong, ⟨m.now, readMetadata_written m.now m.pad m.header file'⟩, ?_, ?_⟩
  · rw [MetadataWrite.apply, problemWriteMetadata, List.drop_left' hlen]
    exact hr.rest
  · rw [MetadataWrite.apply, problemWriteMetadata, List.length_append, hlen, List.length_drop,
      hr.length]
    omega

theorem RewrittenWith.run (hr : RewrittenWith h file file') (ms : List MetadataWrite) :
    RewrittenWith (lastHeader h ms) file (rewriteMetadata file' ms) := by
  induction ms generalizing h file' with
  | nil => exact hr
  | cons m ms ih => exact ih (hr.step m)

theorem RewrittenWith.unpack (hr : RewrittenWith h file file') (env : UnpackEnv W) (w : W)
    (p : ProblemT) : problemUnpack env w p file' = problemUnpack env w p file := by
  have htake : (file'.take 48).length = (file.take 48).length := by
    rw [List.length_take, List.length_take, hr.length]
  have hdrop : file'.drop 96 = file.drop 96 := by
    have h48 := congrArg (List.drop 48) hr.rest
    rwa [List.drop_drop, List.drop_drop] at h48
  rw [problemUnpack, problemUnpack, htake, hr.rest, hdrop]

theorem packed_rewritten (hpack : problemPack env p (some h) = some (.written file length)) :
    RewrittenWith h file file := by
  obtain ⟨atoms, _, _, rfl⟩ := problemPack_written hpack
  refine ⟨?_, ⟨env.now, ?_⟩, rfl, rfl⟩
  · rw [List.length_append, List.length_append, metadataBytes_length]
    omega
  · rw [List.append_assoc]
    exact readMetadata_metadataBytes _ _ _

/-- Rewriting the metadata of a packed file leaves the last header to be read, all other bytes as
they were, and every load as it was. -/
theorem metadata_rewritten (hpack : problemPack env p (some h) = some (.written file length))
    (ms : List MetadataWrite) :
    (∃ m, problemReadMetadata (rewriteMetadata file ms) = some m ∧
      m.id = (lastHeader h ms).id ∧ m.parent = (lastHeader h ms).parent ∧
      m.priority = (lastHeader h ms).priority ∧ m.status = (lastHeader h ms).status) ∧
    (rewriteMetadata file ms).drop 48 = file.drop 48 ∧
    (rewriteMetadata file ms).length = file.length ∧
    ∀ (W : Type) (unpack : UnpackEnv W) (w : W) (q : ProblemT),
      problemUnpack unpack w q (rewriteMetadata file ms) = problemUnpack unpack w q file := by
  have hr := (packed_rewritten hpack).run ms
  obtain ⟨time, hread⟩ := hr.read
  refine ⟨⟨_, hread, rfl, rfl, rfl, rfl⟩, hr.rest, hr.length, ?_⟩
  intro W unpack w q
  exact hr.unpack unpack w q

def sampleWrites : List MetadataWrite :=
  [⟨1, PackEnv.sample.metadataPadding, ⟨1, 0, 0, 0, statusInProgress⟩⟩,
    ⟨2, PackEnv.sample.metadataPadding, ⟨1, 0, 0, 0, statusSolved⟩⟩]

theorem metadata_rewritten_twice : ∃ file length,
    problemPack .sample (.oneRow 0) (some ⟨1, 0, 0, 0, statusNew⟩) = some (.written file length) ∧
    (∃ m, problemReadMetadata (rewriteMetadata file sampleWrites) = some m ∧
      m.id = (lastHeader ⟨1, 0, 0, 0, statusNew⟩ sampleWrites).id ∧
      m.parent = (lastHeader ⟨1, 0, 0, 0, statusNew⟩ sampleWrites).parent ∧
      m.priority = (lastHeader ⟨1, 0, 0, 0, statusNew⟩ sampleWrites).priority ∧
      m.status = (lastHeader ⟨1, 0, 0, 0, statusNew⟩ sampleWrites).status) ∧
    (rewriteMetadata file sampleWrites).drop 48 = file.drop 48 ∧
    (rewriteMetadata file sampleWrites).length = file.length ∧
    ∀ (W : Type) (unpack : UnpackEnv W) (w : W) (q : ProblemT),
      problemUnpack unpack w q (rewriteMetadata file sampleWrites) =
        problemUnpack unpack w q file := by
  obtain ⟨file, hpack⟩ : ∃ file, problemPack .sample (.oneRow 0)
      (some ⟨1, 0, 0, 0, statusNew⟩) = some (.written file 56) := ⟨_, rfl⟩
  exact ⟨file, 56, hpack, metadata_rewritten hpack sampleWrites⟩

end Aiqb
