import VoiceHotPath.Lib.BoundedFill
import VoiceHotPath.Vad.Partition
import VoiceHotPath.Vad.Scenario

/-!
# Splices in the chunk buffer

`append` tests the room left frame by frame and goes on after a frame it has
left out.  The audio of a chunk skips that frame unnoticed when a later one is
short enough for the room that it did not fit in.
-/

namespace VoiceHotPath

/-- After the first frame without room, no frame that has bytes finds any. -/
def NoneFitsLater (maxBytes : Nat) (frames : List AudioFrame) : Prop :=
  ∀ fit left later, frames = fit ++ left :: later → totalBytes fit ≤ maxBytes →
    maxBytes < totalBytes fit + left.hdr.byteLen.toNat →
      ∀ frame ∈ later, frame.hdr.byteLen = 0 ∨
        maxBytes < totalBytes fit + frame.hdr.byteLen.toNat

theorem length_flatten_audio (frames : List AudioFrame) :
    (frames.map AudioFrame.audio).flatten.length = totalBytes frames := by
  induction frames with
  | nil => rfl
  | cons frame frames ih =>
      rw [List.map_cons, List.flatten_cons, List.length_append, ih, AudioFrame.length_audio]
      rfl

theorem fillBuffer_eq (maxBytes : Nat) (frames : List AudioFrame) :
    fillBuffer maxBytes frames = BoundedFill.fill maxBytes [] (frames.map AudioFrame.audio) := by
  induction frames using List.reverseRecOn with
  | nil => rfl
  | append_singleton frames frame ih =>
      rw [fillBuffer_snoc, ih, List.map_append, BoundedFill.fill_append, List.map_singleton,
        BoundedFill.fill_cons, AudioFrame.length_audio]
      rfl

/-- The lengths alone decide. -/
theorem noneFitsLater_iff (maxBytes : Nat) (frames : List AudioFrame) :
    NoneFitsLater maxBytes frames ↔
      BoundedFill.NoneFitsLater maxBytes (frames.map AudioFrame.audio) := by
  have empty : ∀ frame : AudioFrame, frame.audio.length = 0 ↔ frame.hdr.byteLen = 0 := by
    intro frame
    rw [AudioFrame.length_audio, ← UInt32.toNat_inj]
    rfl
  constructor
  · intro none fit left later split within beyond item member
    obtain ⟨fit, rest, rfl, rfl, restSplit⟩ := List.map_eq_append_iff.mp split
    obtain ⟨left, later, rfl, rfl, rfl⟩ := List.map_eq_cons_iff.mp restSplit
    obtain ⟨frame, belongs, rfl⟩ := List.mem_map.mp member
    rw [length_flatten_audio, AudioFrame.length_audio] at beyond
    rw [length_flatten_audio] at within
    rw [empty, length_flatten_audio, AudioFrame.length_audio]
    exact none fit left later rfl within beyond frame belongs
  · rintro none fit left later rfl within beyond frame member
    have item := none (fit.map AudioFrame.audio) left.audio (later.map AudioFrame.audio)
      (by rw [List.map_append, List.map_cons]) (by rwa [length_flatten_audio])
      (by rwa [length_flatten_audio, AudioFrame.length_audio]) frame.audio
      (List.mem_map_of_mem member)
    rwa [empty, length_flatten_audio, AudioFrame.length_audio] at item

namespace ChunkAssembler

section

variable {D : Type}

/-- The audio of a chunk after these frames, from its opening on. -/
def audioAfter (opened : ChunkAssembler D) (heard : List AudioFrame) : List UInt8 :=
  (heard.foldl append opened).chunkData

/-- At this moment nothing follows what was left out. -/
structure Unspliced (opened : ChunkAssembler D) (heard : List AudioFrame) : Prop where
  concatenated : ∃ kept, kept <+: heard ∧
    opened.audioAfter heard = kept.flatMap AudioFrame.audio
  stopped : ∀ fit left later, heard = fit ++ left :: later →
    opened.cfg.maxChunkBytes < (opened.audioAfter fit).length + left.hdr.byteLen.toNat →
      opened.audioAfter heard = opened.audioAfter fit
  bounded : (opened.audioAfter heard).length ≤ opened.cfg.maxChunkBytes

theorem audioAfter_openChunk (assembler : ChunkAssembler D) (nowNs : UInt64)
    (heard : List AudioFrame) :
    (assembler.openChunk nowNs).audioAfter heard =
      BoundedFill.fill assembler.cfg.maxChunkBytes [] (heard.map AudioFrame.audio) := by
  have carries := (carries_openChunk assembler nowNs).foldl_append heard
  have cfg := foldl_append_keeps (·.cfg) cfg_append heard (assembler.openChunk nowNs)
  have filled := carries.buffer
  rw [cfg, List.nil_append, fillBuffer_eq] at filled
  exact filled

theorem length_audioAfter_le (assembler : ChunkAssembler D) (nowNs : UInt64)
    (heard : List AudioFrame) :
    ((assembler.openChunk nowNs).audioAfter heard).length ≤ assembler.cfg.maxChunkBytes := by
  rw [audioAfter_openChunk]
  exact BoundedFill.length_fill_le (Nat.zero_le _) _

/-- The audio of an opened chunk is never spliced exactly when, after the first frame without
room, no frame that has bytes finds any; it never outgrows its reservation. -/
theorem unspliced_iff (assembler : ChunkAssembler D) (nowNs : UInt64) (frames : List AudioFrame) :
    (∀ heard, heard <+: frames → Unspliced (assembler.openChunk nowNs) heard) ↔
      NoneFitsLater assembler.cfg.maxChunkBytes frames := by
  rw [noneFitsLater_iff]
  constructor
  · intro unspliced
    obtain ⟨kept, earlier, same⟩ := (unspliced frames (List.prefix_refl frames)).concatenated
    rw [audioAfter_openChunk] at same
    exact BoundedFill.noneFitsLater_of_prefixed (earlier.map AudioFrame.audio) same
  · intro none heard earlier
    have here := none.of_prefix (earlier.map AudioFrame.audio)
    refine ⟨?_, ?_, length_audioAfter_le assembler nowNs heard⟩
    · obtain ⟨kept, inside, same⟩ := here.prefixed
      obtain ⟨kept, within, rfl⟩ := List.prefix_map_iff.mp inside
      exact ⟨kept, within, (audioAfter_openChunk assembler nowNs heard).trans same⟩
    · rintro fit left later rfl beyond
      rw [audioAfter_openChunk, ← AudioFrame.length_audio] at beyond
      rw [audioAfter_openChunk, audioAfter_openChunk]
      exact here.stopped (by rw [List.map_append, List.map_cons]) beyond

end

section

open Scenario

/-- Onsets on the first loud frame, and room for five bytes. -/
def tightConfig : ChunkerConfig ℚ :=
  { shortConfig with
    gate := { shortConfig.gate with speechFrames := 1 }
    preRollFrames := 0
    maxChunkBytes := 5 }

/-- The same tone in two samples. -/
def longTone (seq : UInt64) : AudioFrame :=
  { toneFrame seq with hdr := { (toneFrame seq).hdr with byteLen := 4 } }

def mixedFrames : List AudioFrame :=
  [toneFrame 0, longTone 1, toneFrame 2]

/-- The third frame fits where the second did not, and its samples follow those of the first. -/
theorem spliced_mixedFrames :
    ¬ (∀ heard, heard <+: mixedFrames →
      Unspliced ((make tightConfig).openChunk 0) heard) ∧
      -- A run of `on_frame` has this chunk in its buffer.
      (after tightConfig [.frame (toneFrame 0) 0, .frame (longTone 1) 20000000,
          .frame (toneFrame 2) 40000000]).chunkData =
        ((make tightConfig).openChunk 0).audioAfter mixedFrames := by
  refine ⟨fun unspliced => ?_, by decide +kernel⟩
  have stopped := (unspliced mixedFrames (List.prefix_refl _)).stopped [toneFrame 0] (longTone 1)
    [toneFrame 2] rfl (by decide +kernel)
  revert stopped
  decide +kernel

end

end ChunkAssembler

end VoiceHotPath
