import PgxBackup.Steps
import PgxBackup.Text

/-!
# Writing to an object store in parts

The drivers for S3, Azure and GCS collect what is written in a buffer and send
it as a part when the buffer holds as many bytes as a part has. The three
loops of `storageWriteS3`, `storageWriteAzure` and `storageWriteGcs` are the
same; they differ in how they count the parts that were sent.

The buffer is resized once a call, from what the input is, while the size of
a part may grow at each part. So a call goes on for ever when there is more
to read than the buffer can hold and the buffer is smaller than a part.
-/

namespace PgxBackup

open List

/-! ## The model -/

/-- The drivers that upload in parts. -/
inductive StorageWriter
  | s3
  | azure
  | gcs
  deriving DecidableEq

/-- `STORAGE_S3_SPLIT_DEFAULT`, and the same for the others. -/
def StorageWriter.splitDefault : StorageWriter → ℕ
  | .s3 => 205
  | .azure | .gcs => 257

/-- `STORAGE_S3_SPLIT_MAX`, and the same for the others. -/
def StorageWriter.splitMax : StorageWriter → ℕ
  | .s3 => 9557
  | .azure | .gcs => 9505

def STORAGE_CHUNK_SIZE_MAX : ℕ := 1024 * 1024 * 1024

def STORAGE_CHUNK_INCR : ℕ := 8 * 1024 * 1024

/-- `storageWriteChunkSize`. -/
def storageWriteChunkSize (chunkSizeDefault splitDefault splitMax chunkIdx : ℕ) : ℕ :=
  if chunkIdx < splitDefault then chunkSizeDefault
  else if chunkIdx > splitMax then STORAGE_CHUNK_SIZE_MAX
  else
    let result :=
      (STORAGE_CHUNK_SIZE_MAX - STORAGE_CHUNK_INCR) * (chunkIdx - splitDefault + 1) / (splitMax - splitDefault)
    if result ≤ chunkSizeDefault then chunkSizeDefault
    else if result % STORAGE_CHUNK_INCR ≠ 0 then result + (STORAGE_CHUNK_INCR - result % STORAGE_CHUNK_INCR)
    else result

structure PartUpload where
  /-- The part that was sent last, while its response is not read. -/
  request : Option Bytes
  /-- `uploadPartList` of S3, `blockIdList` of Azure (for each id, its
  block), and the chunks that `chunkTotal` of GCS counts. -/
  list : List Bytes

/-- `storageWriteS3PartAsync`, `storageWriteAzureBlockAsync` and
`storageWriteGcsBlockAsync`. S3 adds a part to its list when it reads the
response, which is when the next part is sent. -/
def StorageWriter.async (upload : PartUpload) (part : Bytes) : StorageWriter → PartUpload
  | .s3 => ⟨some part, upload.list ++ upload.request.toList⟩
  | .azure | .gcs => ⟨some part, upload.list ++ [part]⟩

/-- A driver that writes. -/
structure ChunkWrite where
  /-- What is in the part buffer. -/
  buffer : Bytes
  /-- The size of the part buffer. -/
  bufSize : ℕ
  /-- `partSize`, `blockSize` or `chunkSize`. -/
  size : ℕ
  upload : PartUpload

/-- The driver before the first write. -/
def chunkWriteNew (size : ℕ) : ChunkWrite := ⟨[], 0, size, ⟨none, []⟩⟩

/-- `storageWriteChunkBufferResize`, for an input buffer of the size. The
subtraction may wrap, and then the addition wraps back. -/
def storageWriteChunkBufferResize (inputSize : ℕ) (input : Bytes) (this : ChunkWrite) : ChunkWrite :=
  if this.bufSize < this.size then
    let chunkSize :=
      if input.length = inputSize then
        if this.bufSize = 0 then inputSize * 2 else this.bufSize * 2
      else this.bufSize + input.length - (this.bufSize - this.buffer.length)
    { this with bufSize := if chunkSize > this.size then this.size else chunkSize }
  else this

/-- A turn of the loop of `storageWriteS3`, with the bytes of the input that
were read. -/
def storageWriteTurn (writer : StorageWriter) (input : Bytes) (s : ChunkWrite × ℕ) : ChunkWrite × ℕ :=
  let (this, bytesTotal) := s
  let remains := this.bufSize - this.buffer.length
  let bytesNext := if remains > input.length - bytesTotal then input.length - bytesTotal else remains
  let buffer := this.buffer ++ (input.drop bytesTotal).take bytesNext
  if buffer.length = this.size then
    let upload := writer.async this.upload buffer
    let size := storageWriteChunkSize this.size writer.splitDefault writer.splitMax upload.list.length
    (⟨[], this.bufSize, size, upload⟩, bytesTotal + bytesNext)
  else ({ this with buffer := buffer }, bytesTotal + bytesNext)

/-- The loop of `storageWriteS3`, for at most as many turns as the fuel. -/
def storageWriteLoop (writer : StorageWriter) (input : Bytes) : ℕ → ChunkWrite × ℕ → Option ChunkWrite
  | 0, _ => none
  | fuel + 1, s =>
    let s := storageWriteTurn writer input s
    if s.2 = input.length then some s.1 else storageWriteLoop writer input fuel s

/-- `storageWriteS3`, `storageWriteAzure` and `storageWriteGcs`, for an input
buffer of the size. A loop that takes more turns takes one that changes
nothing. -/
def storageWrite (writer : StorageWriter) (inputSize : ℕ) (this : ChunkWrite) (input : Bytes) : Option ChunkWrite :=
  storageWriteLoop writer input (input.length + 1) (storageWriteChunkBufferResize inputSize input this, 0)

/-- **The call returns**: after some turn the input is exhausted. -/
def StorageWriteReturns (writer : StorageWriter) (inputSize : ℕ) (this : ChunkWrite) (input : Bytes) : Prop :=
  ∃ fuel, (storageWriteLoop writer input fuel (storageWriteChunkBufferResize inputSize input this, 0)).isSome

/-! ## When a call returns -/

def PartUpload.sent (upload : PartUpload) : StorageWriter → ℕ
  | .s3 => upload.list.length + upload.request.toList.length
  | .azure | .gcs => upload.list.length

/-- The part index from which the driver computes the size of a part, when it
has sent so many. S3 is one behind. -/
def StorageWriter.chunkIdx (sent : ℕ) : StorageWriter → ℕ
  | .s3 => sent - 1
  | .azure | .gcs => sent

/-- The size of the parts after `size`, when so many were sent. -/
def StorageWriter.nextSize (writer : StorageWriter) (size sent : ℕ) : ℕ :=
  storageWriteChunkSize size writer.splitDefault writer.splitMax (writer.chunkIdx sent)

/-- What is left of the input fits in the buffer, or else the buffer holds a
part, and no part that is sent while more than one part is left makes the
parts larger. -/
def ChunkWrite.Fits (this : ChunkWrite) (writer : StorageWriter) (left : ℕ) : Prop :=
  this.buffer.length + left ≤ this.bufSize ∨
    (this.bufSize = this.size ∧ ∀ j, (j + 2) * this.size < this.buffer.length + left →
      writer.nextSize this.size (this.upload.sent writer + (j + 1)) = this.size)

/-- The size of the buffer for an input of a length: that of a part at most, and
below it twice what it was, or twice the input buffer in the first call, if the
input buffer is full, and what is needed otherwise. -/
def ChunkWrite.bufSizeNext (this : ChunkWrite) (inputSize length : ℕ) : ℕ :=
  if this.bufSize < this.size then
    min this.size
      (if length = inputSize then if this.bufSize = 0 then inputSize * 2 else this.bufSize * 2
      else this.buffer.length + length)
  else this.bufSize

/-- The condition of a call: a buffer of this size is fit for the input. -/
def StorageWriteFits (writer : StorageWriter) (inputSize : ℕ) (this : ChunkWrite) (input : Bytes) : Prop :=
  ({ this with bufSize := this.bufSizeNext inputSize input.length }).Fits writer input.length

/-- The state between two turns. -/
structure ChunkWrite.Ok (this : ChunkWrite) : Prop where
  fits : this.buffer.length ≤ this.bufSize
  within : this.bufSize ≤ this.size
  short : this.buffer.length < this.size
  max : this.size ≤ STORAGE_CHUNK_SIZE_MAX

variable {writer : StorageWriter} {inputSize : ℕ} {this : ChunkWrite} {input : Bytes} {bytesTotal fuel : ℕ}

section

variable (writer : StorageWriter) (upload : PartUpload) (part : Bytes)

theorem async_sent : (writer.async upload part).sent writer = upload.sent writer + 1 := by
  cases writer <;> simp [StorageWriter.async, PartUpload.sent]

theorem async_list :
    (writer.async upload part).list.length = writer.chunkIdx (upload.sent writer + 1) := by
  cases writer <;> simp [StorageWriter.async, PartUpload.sent, StorageWriter.chunkIdx]

end

/-- **The parts never get smaller**, and never larger than a part may be. -/
theorem storageWriteChunkSize_bounds (writer : StorageWriter) {size : ℕ} (hsize : size ≤ STORAGE_CHUNK_SIZE_MAX)
    (chunkIdx : ℕ) :
    size ≤ storageWriteChunkSize size writer.splitDefault writer.splitMax chunkIdx ∧
      storageWriteChunkSize size writer.splitDefault writer.splitMax chunkIdx ≤ STORAGE_CHUNK_SIZE_MAX := by
  have hstep : chunkIdx ≤ writer.splitMax →
      (STORAGE_CHUNK_SIZE_MAX - STORAGE_CHUNK_INCR) * (chunkIdx - writer.splitDefault + 1)
        / (writer.splitMax - writer.splitDefault) ≤ STORAGE_CHUNK_SIZE_MAX - STORAGE_CHUNK_INCR + 120000 := by
    intro hidx
    have hmul := Nat.mul_le_mul_left (STORAGE_CHUNK_SIZE_MAX - STORAGE_CHUNK_INCR)
      (show chunkIdx - writer.splitDefault + 1 ≤ writer.splitMax - writer.splitDefault + 1 by omega)
    refine (Nat.div_le_div_right hmul).trans ?_
    cases writer <;> decide
  have hmax : STORAGE_CHUNK_SIZE_MAX = 1073741824 := rfl
  have hincr : STORAGE_CHUNK_INCR = 8388608 := rfl
  unfold storageWriteChunkSize
  generalize (STORAGE_CHUNK_SIZE_MAX - STORAGE_CHUNK_INCR) * (chunkIdx - writer.splitDefault + 1)
    / (writer.splitMax - writer.splitDefault) = result at hstep ⊢
  simp only [hmax, hincr] at hstep hsize ⊢
  split_ifs <;> omega

theorem resize_ok (h : this.Ok) (inputSize : ℕ) (input : Bytes) :
    (storageWriteChunkBufferResize inputSize input this).Ok := by
  obtain ⟨hfits, hwithin, hshort, hmax⟩ := h
  unfold storageWriteChunkBufferResize
  split
  · refine ⟨?_, ?_, hshort, hmax⟩
    all_goals
      show _ ≤ _
      dsimp only
      split_ifs <;> omega
  · exact ⟨hfits, hwithin, hshort, hmax⟩

theorem resize_eq (h : this.Ok) (inputSize : ℕ) (input : Bytes) :
    storageWriteChunkBufferResize inputSize input this
      = { this with bufSize := this.bufSizeNext inputSize input.length } := by
  have hfits := h.fits
  have hneeded : this.bufSize + input.length - (this.bufSize - this.buffer.length)
      = this.buffer.length + input.length := by omega
  unfold storageWriteChunkBufferResize ChunkWrite.bufSizeNext
  rw [hneeded]
  split
  · dsimp only
    generalize (if input.length = inputSize then if this.bufSize = 0 then inputSize * 2 else this.bufSize * 2
      else this.buffer.length + input.length) = chunkSize
    rcases le_or_gt chunkSize this.size with hle | hlt
    · rw [if_neg (not_lt.mpr hle), min_eq_right hle]
    · rw [if_pos hlt, min_eq_left hlt.le]
  · rfl

theorem turn_of_lt (writer : StorageWriter) (h : this.Ok)
    (hmore : this.bufSize < this.buffer.length + (input.length - bytesTotal)) :
    ∃ buffer : Bytes, buffer.length = this.bufSize ∧
      storageWriteTurn writer input (this, bytesTotal) =
        if this.bufSize = this.size then
          (⟨[], this.size, writer.nextSize this.size (this.upload.sent writer + 1), writer.async this.upload buffer⟩,
            bytesTotal + (this.bufSize - this.buffer.length))
        else ({ this with buffer := buffer }, bytesTotal + (this.bufSize - this.buffer.length)) := by
  have hfits := h.fits
  have hnot : ¬ this.bufSize - this.buffer.length > input.length - bytesTotal := by omega
  have hlength : (this.buffer ++ (input.drop bytesTotal).take (this.bufSize - this.buffer.length)).length
      = this.bufSize := by
    rw [length_append, length_take, length_drop]
    omega
  refine ⟨_, hlength, ?_⟩
  simp only [storageWriteTurn, if_neg hnot, hlength]
  split
  · rename_i heq
    rw [async_list, heq]
    rfl
  · rfl

theorem turn_of_le (ht : bytesTotal ≤ input.length)
    (hless : this.buffer.length + (input.length - bytesTotal) ≤ this.bufSize) :
    (storageWriteTurn writer input (this, bytesTotal)).2 = input.length := by
  unfold storageWriteTurn
  dsimp only
  have hnext : (if this.bufSize - this.buffer.length > input.length - bytesTotal then input.length - bytesTotal
      else this.bufSize - this.buffer.length) = input.length - bytesTotal := by
    split <;> omega
  rw [hnext]
  split <;> show bytesTotal + (input.length - bytesTotal) = _ <;> omega

/-- A buffer that is full and smaller than a part stays as it is for ever. -/
theorem storageWriteLoop_stuck (hfull : this.buffer.length = this.bufSize)
    (hsmall : this.bufSize ≠ this.size) (ht : bytesTotal < input.length) :
    storageWriteLoop writer input fuel (this, bytesTotal) = none := by
  induction fuel with
  | zero => rfl
  | succ fuel ih =>
    have hturn : storageWriteTurn writer input (this, bytesTotal) = (this, bytesTotal) := by
      simp [storageWriteTurn, hfull, hsmall]
    show (if (storageWriteTurn writer input (this, bytesTotal)).2 = input.length then _ else _) = _
    rw [hturn, if_neg ht.ne]
    exact ih

/-- The buffer is fit before a part is sent if and only if it is fit then. -/
theorem fits_part {left after : ℕ} {buffer : Bytes} (hsize : this.bufSize = this.size)
    (hafter : this.buffer.length + left = this.size + after) :
    ChunkWrite.Fits ⟨[], this.size, writer.nextSize this.size (this.upload.sent writer + 1),
        writer.async this.upload buffer⟩ writer after ↔ this.Fits writer left := by
  have hsent := async_sent writer this.upload buffer
  unfold ChunkWrite.Fits
  simp only [length_nil, Nat.zero_add, hsent, hsize, hafter]
  constructor
  · rintro (hless | ⟨hsame, hrest⟩)
    · refine .inr ⟨trivial, fun j hj => ?_⟩
      have := Nat.le_mul_of_pos_left this.size (show 0 < j + 1 by omega)
      rw [Nat.succ_mul] at hj
      omega
    · refine .inr ⟨trivial, fun j hj => ?_⟩
      cases j with
      | zero => exact hsame.symm
      | succ j =>
        rw [Nat.succ_mul] at hj
        have hnext := hrest j (by rw [← hsame]; omega)
        rwa [← hsame, Nat.add_assoc, Nat.add_comm 1] at hnext
  · rintro (hless | ⟨-, hrest⟩)
    · exact .inl (by omega)
    · by_cases hless : after ≤ this.size
      · exact .inl hless
      have hsame := hrest 0 (by omega)
      refine .inr ⟨hsame.symm, fun j hj => ?_⟩
      rw [show 0 + 1 = 1 from rfl] at hsame
      rw [hsame] at hj ⊢
      have hnext := hrest (j + 1) (by rw [Nat.succ_mul]; omega)
      rwa [Nat.add_assoc, Nat.add_comm 1]

/-- **The loop ends if and only if the buffer is fit**, whatever the bound on
its turns, if it is above the bytes that are left. -/
theorem storageWriteLoop_isSome (writer : StorageWriter) (h : this.Ok) (ht : bytesTotal ≤ input.length)
    (hfuel : input.length - bytesTotal < fuel) :
    (storageWriteLoop writer input fuel (this, bytesTotal)).isSome ↔
      this.Fits writer (input.length - bytesTotal) := by
  induction fuel generalizing this bytesTotal with
  | zero => exact absurd hfuel (Nat.not_lt_zero _)
  | succ fuel ih =>
    obtain ⟨hfits, hwithin, hshort, hmax⟩ := h
    show (if (storageWriteTurn writer input (this, bytesTotal)).2 = input.length then _ else _ : Option _).isSome ↔ _
    by_cases hless : this.buffer.length + (input.length - bytesTotal) ≤ this.bufSize
    · rw [if_pos (turn_of_le ht hless)]
      exact iff_of_true rfl (.inl hless)
    obtain ⟨buffer, hlength, hturn⟩ := turn_of_lt writer ⟨hfits, hwithin, hshort, hmax⟩ (not_le.mp hless)
    rw [hturn]
    by_cases hsize : this.bufSize = this.size
    · -- a part is sent, and the buffer is empty
      have hgrow := storageWriteChunkSize_bounds writer hmax
        (writer.chunkIdx (this.upload.sent writer + 1))
      have hok : ChunkWrite.Ok ⟨[], this.size, writer.nextSize this.size (this.upload.sent writer + 1),
          writer.async this.upload buffer⟩ :=
        ⟨Nat.zero_le _, hgrow.1, hshort.pos.trans_le hgrow.1, hgrow.2⟩
      rw [if_pos hsize, if_neg (by show bytesTotal + _ ≠ _; omega), ih hok (by omega) (by omega)]
      exact fits_part hsize (by omega)
    · -- the buffer is full and is no part
      have hstuck : storageWriteLoop writer input fuel
          (⟨buffer, this.bufSize, this.size, this.upload⟩, bytesTotal + (this.bufSize - this.buffer.length)) = none :=
        storageWriteLoop_stuck hlength hsize (by omega)
      rw [if_neg hsize, if_neg (by show bytesTotal + _ ≠ _; omega), hstuck]
      exact iff_of_false nofun (fun hor => hor.elim hless (fun hand => hsize hand.1))

theorem storageWriteLoop_mono {fuel' : ℕ} {s : ChunkWrite × ℕ} (h : (storageWriteLoop writer input fuel s).isSome)
    (hle : fuel ≤ fuel') : (storageWriteLoop writer input fuel' s).isSome := by
  induction fuel generalizing s fuel' with
  | zero => cases h
  | succ fuel ih =>
    cases fuel' with
    | zero => exact absurd hle (Nat.not_succ_le_zero _)
    | succ fuel' =>
      unfold storageWriteLoop at h ⊢
      dsimp only at h ⊢
      split at h
      · rw [if_pos ‹_›]
        rfl
      · rw [if_neg ‹_›]
        exact ih h (Nat.le_of_succ_le_succ hle)

theorem turn_ok (writer : StorageWriter) (h : this.Ok) (ht : bytesTotal ≤ input.length) :
    (storageWriteTurn writer input (this, bytesTotal)).1.Ok ∧
      (storageWriteTurn writer input (this, bytesTotal)).2 ≤ input.length := by
  obtain ⟨hfits, hwithin, hshort, hmax⟩ := h
  unfold storageWriteTurn
  dsimp only
  generalize hnext : (if this.bufSize - this.buffer.length > input.length - bytesTotal then
    input.length - bytesTotal else this.bufSize - this.buffer.length) = bytesNext
  have hle : bytesNext ≤ input.length - bytesTotal ∧ bytesNext ≤ this.bufSize - this.buffer.length := by
    split at hnext <;> omega
  have hlength : (this.buffer ++ (input.drop bytesTotal).take bytesNext).length = this.buffer.length + bytesNext := by
    rw [length_append, length_take, length_drop]
    omega
  rw [hlength]
  split
  · have hgrow := storageWriteChunkSize_bounds writer hmax
    exact ⟨⟨Nat.zero_le _, hwithin.trans (hgrow _).1, hshort.pos.trans_le (hgrow _).1, (hgrow _).2⟩,
      by show bytesTotal + _ ≤ _; omega⟩
  · rename_i hne
    have hfit : this.buffer.length + bytesNext ≤ this.bufSize := by omega
    exact ⟨⟨hlength.le.trans hfit, hwithin, hlength.trans_lt (lt_of_le_of_ne (hfit.trans hwithin) hne), hmax⟩,
      by show bytesTotal + _ ≤ _; omega⟩

theorem storageWriteLoop_ok {s : ChunkWrite × ℕ} {after : ChunkWrite} (h : s.1.Ok) (ht : s.2 ≤ input.length)
    (hloop : storageWriteLoop writer input fuel s = some after) : after.Ok := by
  induction fuel generalizing s with
  | zero => cases hloop
  | succ fuel ih =>
    have hturn := turn_ok writer h ht
    unfold storageWriteLoop at hloop
    dsimp only at hloop
    split at hloop
    · exact Option.some.inj hloop ▸ hturn.1
    · exact ih hturn.1 hturn.2 hloop

/-- **A call returns if and only if the buffer is fit for its input.** -/
theorem storageWriteReturns_iff (h : this.Ok) :
    StorageWriteReturns writer inputSize this input ↔ StorageWriteFits writer inputSize this input := by
  unfold StorageWriteFits
  rw [← resize_eq h]
  have hiff {fuel : ℕ} (hfuel : input.length < fuel) :=
    storageWriteLoop_isSome writer (resize_ok h inputSize input) (Nat.zero_le _) hfuel
  constructor
  · rintro ⟨fuel, hsome⟩
    exact (hiff (Nat.lt_succ_of_le (Nat.le_max_right fuel _))).mp
      (storageWriteLoop_mono hsome ((Nat.le_max_left fuel input.length).trans (Nat.le_succ _)))
  · exact fun hfits => ⟨_, (hiff (Nat.lt_succ_self _)).mpr hfits⟩

theorem chunkWriteNew_ok {size : ℕ} (hpos : 0 < size) (hmax : size ≤ STORAGE_CHUNK_SIZE_MAX) :
    (chunkWriteNew size).Ok :=
  ⟨Nat.le_refl _, Nat.zero_le _, hpos, hmax⟩

/-- **Every call of an upload returns if and only if no call reaches a part
that is larger than the buffer with too much left to read**: in the state
before it, the resized buffer is fit for the input. -/
theorem storageWrite_returns_iff {size : ℕ} (hpos : 0 < size) (hmax : size ≤ STORAGE_CHUNK_SIZE_MAX)
    (writer : StorageWriter) (inputSize : ℕ) (calls : List Bytes) :
    Steps.Meets (storageWrite writer inputSize) (StorageWriteReturns writer inputSize) (chunkWriteNew size) calls ↔
      Steps.Meets (storageWrite writer inputSize) (StorageWriteFits writer inputSize) (chunkWriteNew size) calls := by
  have hnew := chunkWriteNew_ok hpos hmax
  generalize chunkWriteNew size = this at hnew ⊢
  induction calls generalizing this with
  | nil => rfl
  | cons input calls ih =>
    refine and_congr (storageWriteReturns_iff hnew) (forall_congr' fun after => ?_)
    exact imp_congr_right fun hstep => ih _ (storageWriteLoop_ok (resize_ok hnew _ _) (Nat.zero_le _) hstep)

/-- A call keeps the size of the resized buffer, and parts never get smaller. -/
theorem storageWriteLoop_sizes {s : ChunkWrite × ℕ} {after : ChunkWrite} (h : s.1.Ok) (ht : s.2 ≤ input.length)
    (hloop : storageWriteLoop writer input fuel s = some after) :
    after.bufSize = s.1.bufSize ∧ s.1.size ≤ after.size := by
  induction fuel generalizing s with
  | zero => cases hloop
  | succ fuel ih =>
    have hok := turn_ok writer h ht
    have hturn : (storageWriteTurn writer input s).1.bufSize = s.1.bufSize ∧
        s.1.size ≤ (storageWriteTurn writer input s).1.size := by
      unfold storageWriteTurn
      dsimp only
      generalize (if s.1.bufSize - s.1.buffer.length > input.length - s.2 then input.length - s.2
        else s.1.bufSize - s.1.buffer.length) = bytesNext
      split
      · exact ⟨rfl, (storageWriteChunkSize_bounds writer h.max _).1⟩
      · exact ⟨rfl, Nat.le_refl _⟩
    unfold storageWriteLoop at hloop
    dsimp only at hloop
    split at hloop
    · exact Option.some.inj hloop ▸ hturn
    · obtain ⟨hbufSize, hsize⟩ := ih hok.1 hok.2 hloop
      exact ⟨hbufSize.trans hturn.1, hturn.2.trans hsize⟩

/-- What holds before a call as long as the input buffers are full and not larger
than a part: nothing is buffered, or the buffer is not smaller than they are. -/
structure ChunkWrite.Large (this : ChunkWrite) (inputSize : ℕ) : Prop where
  ok : this.Ok
  size : inputSize ≤ this.size
  buffer : this.bufSize = 0 ∨ inputSize ≤ this.bufSize

theorem ChunkWrite.Large.fits (h : this.Large inputSize) (hlength : input.length ≤ inputSize) :
    StorageWriteFits writer inputSize this input := by
  obtain ⟨⟨hfits, hwithin, hshort, -⟩, hsize, hbuffer⟩ := h
  unfold StorageWriteFits ChunkWrite.Fits
  dsimp only
  by_cases hfull : this.bufSizeNext inputSize input.length = this.size
  · refine .inr ⟨hfull, fun j hj => ?_⟩
    have hparts := Nat.le_mul_of_pos_left this.size (show 0 < j + 1 by omega)
    rw [Nat.succ_mul] at hj
    omega
  · refine .inl ?_
    unfold ChunkWrite.bufSizeNext at hfull ⊢
    split at hfull
    · rw [if_pos ‹_›, min_eq_right (by omega)]
      split_ifs <;> omega
    · omega

theorem ChunkWrite.Large.step (h : this.Large inputSize) (hlength : input.length = inputSize) {after : ChunkWrite}
    (hstep : storageWrite writer inputSize this input = some after) : after.Large inputSize := by
  have hok := resize_ok h.ok inputSize input
  obtain ⟨hbufSize, hsize⟩ := storageWriteLoop_sizes hok (Nat.zero_le _) hstep
  have hbuffer := h.buffer
  have hpart := h.size
  rw [resize_eq h.ok] at hbufSize hsize
  refine ⟨storageWriteLoop_ok hok (Nat.zero_le _) hstep, hpart.trans hsize, .inr ?_⟩
  rw [hbufSize]
  show inputSize ≤ this.bufSizeNext inputSize input.length
  unfold ChunkWrite.bufSizeNext
  rw [if_pos hlength]
  split_ifs <;> omega

/-- **An upload ends if the input buffer is not larger than the first part**: full
buffers and then a shorter one. -/
theorem storageWrite_returns_of_le {size : ℕ} (hpos : 0 < size) (hmax : size ≤ STORAGE_CHUNK_SIZE_MAX)
    (hle : inputSize ≤ size) (writer : StorageWriter) {full : List Bytes} (hfull : ∀ input ∈ full, input.length = inputSize)
    {last : Bytes} (hlast : last.length < inputSize) :
    Steps.Meets (storageWrite writer inputSize) (StorageWriteReturns writer inputSize) (chunkWriteNew size)
      (full ++ [last]) := by
  have hnew : (chunkWriteNew size).Large inputSize := ⟨chunkWriteNew_ok hpos hmax, hle, .inl rfl⟩
  generalize chunkWriteNew size = this at hnew ⊢
  induction full generalizing this with
  | nil => exact ⟨(storageWriteReturns_iff hnew.ok).mpr (hnew.fits hlast.le), fun _ _ => trivial⟩
  | cons input full ih =>
    rw [forall_mem_cons] at hfull
    exact ⟨(storageWriteReturns_iff hnew.ok).mpr (hnew.fits hfull.1.le),
      fun after hstep => ih hfull.2 after (hnew.step hfull.1 hstep)⟩

/-- With parts of 64KiB and a buffer of 16MiB, the parts that S3 sends grow to
8MiB in the middle of the first call. -/
theorem storageWrite_stuck :
    ¬ Steps.Meets (storageWrite .s3 16777216) (StorageWriteReturns .s3 16777216) (chunkWriteNew 65536)
      ([replicate 16777216 0] ++ [[]]) := by
  have hlength : (replicate 16777216 0 : Bytes).length = 16777216 := length_replicate
  generalize (replicate 16777216 0 : Bytes) = input at hlength ⊢
  intro hmeets
  have hresize : storageWriteChunkBufferResize 16777216 input (chunkWriteNew 65536)
      = ⟨[], 65536, 65536, ⟨none, []⟩⟩ := by
    simp [storageWriteChunkBufferResize, chunkWriteNew, hlength]
  have hfits := (storageWriteReturns_iff (chunkWriteNew_ok (by decide) (by decide))).mp hmeets.1
  rw [StorageWriteFits, ← resize_eq (chunkWriteNew_ok (by decide) (by decide)), hresize, hlength] at hfits
  rcases hfits with hless | ⟨-, hrest⟩
  · exact absurd hless (by decide)
  · cases hrest 205 (by decide)

theorem storageWrite_returns_iff_sample :
    Steps.Meets (storageWrite .gcs 4) (StorageWriteReturns .gcs 4) (chunkWriteNew 3) [[1, 2, 3, 4], [5]] := by
  have hshort (this : ChunkWrite) (left : ℕ) (hsize : this.size = 3) (hleft : this.buffer.length + left < 6)
      (hfull : this.bufSize = this.size) : this.Fits .gcs left :=
    .inr ⟨hfull, fun j hj => by rw [hsize] at hj; omega⟩
  refine (storageWrite_returns_iff (by decide) (by decide) _ _ _).mpr (Steps.meets_cons
    (hshort _ _ rfl (by decide) rfl) (show _ = some ⟨[4], 3, 3, ⟨some [1, 2, 3], [[1, 2, 3]]⟩⟩ from rfl)
    ⟨hshort _ _ rfl (by decide) rfl, fun _ _ => trivial⟩)

end PgxBackup
