import Mathlib.Data.List.Basic

/-!
# Sizes of images

`_jpeg_dimensions` looks for the frame header of a JPEG from marker to marker. It knows two types of
frames, and it does not know the fill bytes that may stand before a marker: on files without those
it comes from one segment to the next until the frame.
-/

namespace ZelerPlatform.Publicador

inductive IndexError
  | indexError
  deriving DecidableEq, Repr

/-- `data[index]`. -/
def byteAt (data : List UInt8) (index : Nat) : Except IndexError UInt8 :=
  match data[index]? with
  | some byte => .ok byte
  | none => .error .indexError

/-- `data[start:stop]`. -/
def slice (data : List UInt8) (start stop : Nat) : List UInt8 := (data.drop start).take (stop - start)

/-- `int.from_bytes(data, "big")`. -/
def bigEndian (data : List UInt8) : Nat := data.foldl (fun n byte => 256 * n + byte.toNat) 0

/-- `int.from_bytes(data, "little")`. -/
def littleEndian (data : List UInt8) : Nat := bigEndian data.reverse

/-- The loop of `_jpeg_dimensions`. -/
def scanFrame (data : List UInt8) (index : Nat) : Except IndexError (Nat × Nat) :=
  if _h : index + 9 < data.length then
    match byteAt data index with
    | .error error => .error error
    | .ok byte =>
        if byte ≠ 0xFF then scanFrame data (index + 1)
        else
          match byteAt data (index + 1) with
          | .error error => .error error
          | .ok marker =>
              if marker ∈ [0xC0, 0xC2] then
                .ok (bigEndian (slice data (index + 7) (index + 9)),
                  bigEndian (slice data (index + 5) (index + 7)))
              else scanFrame data (index + (2 + bigEndian (slice data (index + 2) (index + 4))))
  else .ok (0, 0)
termination_by data.length - index

/-- `_jpeg_dimensions`. -/
def jpegDimensions (data : List UInt8) : Except IndexError (Nat × Nat) :=
  if [0xFF, 0xD8].isPrefixOf data then scanFrame data 2 else .ok (0, 0)

/-- `_image_dimensions`. -/
def imageDimensions (data : List UInt8) (extension : String) : Except IndexError (Nat × Nat) :=
  if extension = ".png" ∧ [0x89, 0x50, 0x4E, 0x47, 0x0D, 0x0A, 0x1A, 0x0A].isPrefixOf data ∧
      24 ≤ data.length then
    .ok (bigEndian (slice data 16 20), bigEndian (slice data 20 24))
  else if extension ∈ [".jpg", ".jpeg"] then jpegDimensions data
  else if extension = ".webp" ∧ 30 ≤ data.length ∧ slice data 0 4 = [0x52, 0x49, 0x46, 0x46] ∧
      slice data 8 12 = [0x57, 0x45, 0x42, 0x50] ∧ slice data 12 16 = [0x56, 0x50, 0x38, 0x58] then
    .ok (littleEndian (slice data 24 27) + 1, littleEndian (slice data 27 30) + 1)
  else .ok (0, 0)

/-! ### JPEG files -/

/-- The markers of frame headers: all from C0 to CF but three. -/
def frameMarkers : List UInt8 :=
  [0xC0, 0xC1, 0xC2, 0xC3, 0xC5, 0xC6, 0xC7, 0xC9, 0xCA, 0xCB, 0xCD, 0xCE, 0xCF]

/-- The second bytes that begin no segment: a stuffed or a fill byte, and the markers that stand
alone. -/
def loneMarkers : List UInt8 :=
  [0x00, 0xFF, 0x01, 0xD0, 0xD1, 0xD2, 0xD3, 0xD4, 0xD5, 0xD6, 0xD7, 0xD8, 0xD9]

theorem markers_known {marker : UInt8} (h : marker ∈ [(0xC0 : UInt8), 0xC2]) :
    marker ∈ frameMarkers := by
  rcases List.mem_pair.mp h with rfl | rfl
  · decide
  · decide

/-- A number of two bytes. -/
def twoBytes (n : Nat) : List UInt8 := [UInt8.ofNat (n / 256), UInt8.ofNat (n % 256)]

/-- A marker after fill bytes. -/
def markerBytes (fill : Nat) (marker : UInt8) : List UInt8 :=
  List.replicate (fill + 1) 0xFF ++ [marker]

/-- A segment before the frame; its length counts the two bytes that hold it. -/
structure Segment where
  fill : Nat
  marker : UInt8
  payload : List UInt8
  short : payload.length + 2 < 65536
  other : marker ∉ frameMarkers ++ loneMarkers

def Segment.bytes (segment : Segment) : List UInt8 :=
  markerBytes segment.fill segment.marker ++ twoBytes (segment.payload.length + 2) ++ segment.payload

/-- A frame header up to its size, and what follows. -/
structure FrameHeader where
  fill : Nat
  marker : UInt8
  length : Nat
  precision : UInt8
  height : Nat
  width : Nat
  rest : List UInt8
  frame : marker ∈ frameMarkers
  short : height < 65536 ∧ width < 65536
  more : 2 ≤ rest.length

def FrameHeader.bytes (frame : FrameHeader) : List UInt8 :=
  markerBytes frame.fill frame.marker ++ twoBytes frame.length ++ [frame.precision] ++
    twoBytes frame.height ++ twoBytes frame.width ++ frame.rest

/-- A JPEG file. -/
structure Jpeg where
  segments : List Segment
  frame : FrameHeader

def Jpeg.bytes (jpeg : Jpeg) : List UInt8 :=
  [0xFF, 0xD8] ++ jpeg.segments.flatMap Segment.bytes ++ jpeg.frame.bytes

/-- No fill bytes before any marker, and a frame of one of the types that the scan knows. -/
structure Jpeg.Plain (jpeg : Jpeg) : Prop where
  segments : ∀ segment ∈ jpeg.segments, segment.fill = 0
  frame : jpeg.frame.fill = 0
  marker : jpeg.frame.marker = 0xC0 ∨ jpeg.frame.marker = 0xC2

/-! ### The scan -/

section

variable {before data rest payload : List UInt8} {index n : Nat} {byte marker : UInt8}

theorem byteAt_ok (data : List UInt8) (index : Nat) (h : index < data.length) :
    ∃ byte, byteAt data index = .ok byte := by
  rw [byteAt, List.getElem?_eq_getElem h]
  exact ⟨_, rfl⟩

/-- The scan ends without reading outside the bytes. -/
theorem scanFrame_ok (data : List UInt8) (index : Nat) :
    ∃ dimensions, scanFrame data index = .ok dimensions := by
  induction index using scanFrame.induct data with
  | case1 index h error hbyte =>
      obtain ⟨byte, hok⟩ := byteAt_ok data index (by omega)
      rw [hok] at hbyte
      cases hbyte
  | case2 index h byte hbyte hother ih =>
      rw [scanFrame, dif_pos h, hbyte]
      simpa only [if_pos hother] using ih
  | case3 index h byte hbyte hff error hmarker =>
      obtain ⟨marker, hok⟩ := byteAt_ok data (index + 1) (by omega)
      rw [hok] at hmarker
      cases hmarker
  | case4 index h byte hbyte hff marker hmarker hframe =>
      rw [scanFrame, dif_pos h, hbyte]
      simp only [if_neg hff, hmarker, if_pos hframe]
      exact ⟨_, rfl⟩
  | case5 index h byte hbyte hff marker hmarker hframe ih =>
      rw [scanFrame, dif_pos h, hbyte]
      simpa only [if_neg hff, hmarker, if_neg hframe] using ih
  | case6 index h =>
      rw [scanFrame, dif_neg h]
      exact ⟨_, rfl⟩

theorem byteAt_append (before data : List UInt8) (index : Nat) :
    byteAt (before ++ data) (before.length + index) = byteAt data index := by
  rw [byteAt, byteAt, List.getElem?_append_right (Nat.le_add_right _ _), Nat.add_sub_cancel_left]

theorem slice_append (before data : List UInt8) (start stop : Nat) :
    slice (before ++ data) (before.length + start) (before.length + stop) =
      slice data start stop := by
  rw [slice, slice, List.drop_length_add_append, Nat.add_sub_add_left]

theorem scanFrame_stop (h : ¬ index + 9 < data.length) : scanFrame data index = .ok (0, 0) := by
  rw [scanFrame, dif_neg h]

/-- One step at the bytes `byte` and `marker`. -/
theorem scanFrame_step (h : index + 9 < data.length) (hbyte : byteAt data index = .ok byte)
    (hmarker : byteAt data (index + 1) = .ok marker) :
    scanFrame data index =
      if byte ≠ 0xFF then scanFrame data (index + 1)
      else if marker ∈ [0xC0, 0xC2] then
        .ok (bigEndian (slice data (index + 7) (index + 9)),
          bigEndian (slice data (index + 5) (index + 7)))
      else scanFrame data (index + (2 + bigEndian (slice data (index + 2) (index + 4)))) := by
  rw [scanFrame, dif_pos h]
  simp only [hbyte, hmarker]

/-- The scan from a position reads only what follows it. -/
theorem scanFrame_append (before data : List UInt8) (index : Nat) :
    scanFrame (before ++ data) (before.length + index) = scanFrame data index := by
  by_cases h : index + 9 < data.length
  · have hbound : before.length + index + 9 < (before ++ data).length := by
      rw [List.length_append]
      omega
    obtain ⟨byte, hbyte⟩ := byteAt_ok data index (by omega)
    obtain ⟨marker, hmarker⟩ := byteAt_ok data (index + 1) (by omega)
    rw [scanFrame_step h hbyte hmarker,
      scanFrame_step hbound ((byteAt_append before data index).trans hbyte)
        ((byteAt_append before data (index + 1)).trans hmarker)]
    simp only [Nat.add_assoc, slice_append]
    rw [scanFrame_append before data (index + 1),
      scanFrame_append before data (index + (2 + bigEndian (slice data (index + 2) (index + 4))))]
  · have hbound : ¬ before.length + index + 9 < (before ++ data).length := by
      rw [List.length_append]
      omega
    rw [scanFrame_stop h, scanFrame_stop hbound]
termination_by data.length - index

theorem bigEndian_twoBytes (h : n < 65536) : bigEndian (twoBytes n) = n := by
  have high : (UInt8.ofNat (n / 256)).toNat = n / 256 := by
    rw [UInt8.toNat_ofNat']
    omega
  have low : (UInt8.ofNat (n % 256)).toNat = n % 256 := by
    rw [UInt8.toNat_ofNat']
    omega
  rw [twoBytes, bigEndian, List.foldl_cons, List.foldl_cons, List.foldl_nil, high, low]
  omega

@[simp]
theorem length_twoBytes (n : Nat) : (twoBytes n).length = 2 := rfl

@[simp]
theorem markerBytes_zero (marker : UInt8) : markerBytes 0 marker = [0xFF, marker] := rfl

/-- A segment is passed over where at least six bytes follow it. -/
theorem scanFrame_segment (hframe : marker ∉ [(0xC0 : UInt8), 0xC2])
    (short : payload.length + 2 < 65536) (hrest : 6 ≤ rest.length) :
    scanFrame ([0xFF, marker] ++ twoBytes (payload.length + 2) ++ payload ++ rest) 0 =
      scanFrame rest 0 := by
  have hbound : 0 + 9 < ([0xFF, marker] ++ twoBytes (payload.length + 2) ++ payload ++
      rest).length := by
    simp only [List.length_append, length_twoBytes, List.length_cons, List.length_nil]
    omega
  have hlength : slice ([0xFF, marker] ++ twoBytes (payload.length + 2) ++ payload ++ rest)
      (0 + 2) (0 + 4) = twoBytes (payload.length + 2) := rfl
  have hnext : 0 + (2 + (payload.length + 2)) =
      ([0xFF, marker] ++ twoBytes (payload.length + 2) ++ payload).length + 0 := by
    simp only [List.length_append, length_twoBytes, List.length_cons, List.length_nil]
    omega
  rw [scanFrame_step hbound rfl rfl, if_neg fun h => h rfl, if_neg hframe, hlength,
    bigEndian_twoBytes short, hnext, scanFrame_append]

/-- The frame header gives the size. -/
theorem scanFrame_frame (frame : FrameHeader) (hfill : frame.fill = 0)
    (hmarker : frame.marker = 0xC0 ∨ frame.marker = 0xC2) :
    scanFrame frame.bytes 0 = .ok (frame.width, frame.height) := by
  have hbytes : frame.bytes = [0xFF, frame.marker] ++ twoBytes frame.length ++ [frame.precision] ++
      twoBytes frame.height ++ twoBytes frame.width ++ frame.rest := by
    rw [FrameHeader.bytes, hfill, markerBytes_zero]
  have hbound : 0 + 9 < frame.bytes.length := by
    have more := frame.more
    simp only [hbytes, List.length_append, length_twoBytes, List.length_cons, List.length_nil]
    omega
  have hwidth : slice frame.bytes (0 + 7) (0 + 9) = twoBytes frame.width := by
    rw [hbytes]
    rfl
  have hheight : slice frame.bytes (0 + 5) (0 + 7) = twoBytes frame.height := by
    rw [hbytes]
    rfl
  have hmember : frame.marker ∈ [(0xC0 : UInt8), 0xC2] := by
    rcases hmarker with h | h
    · rw [h]
      decide
    · rw [h]
      decide
  have hbyte : byteAt frame.bytes 0 = .ok 0xFF := by
    rw [hbytes]
    rfl
  have hsecond : byteAt frame.bytes (0 + 1) = .ok frame.marker := by
    rw [hbytes]
    rfl
  rw [scanFrame_step hbound hbyte hsecond, if_neg fun h => h rfl, if_pos hmember, hwidth, hheight,
    bigEndian_twoBytes frame.short.1, bigEndian_twoBytes frame.short.2]

/-- The scan comes over the segments to what follows them. -/
theorem scanFrame_segments {segments : List Segment}
    (plain : ∀ segment ∈ segments, segment.fill = 0) (hrest : 6 ≤ rest.length) :
    scanFrame (segments.flatMap Segment.bytes ++ rest) 0 = scanFrame rest 0 := by
  induction segments with
  | nil => rfl
  | cons segment segments ih =>
      have hframe : segment.marker ∉ [(0xC0 : UInt8), 0xC2] := fun h =>
        segment.other (List.mem_append_left _ (markers_known h))
      have hmore : 6 ≤ (segments.flatMap Segment.bytes ++ rest).length := by
        rw [List.length_append]
        omega
      rw [List.flatMap_cons, List.append_assoc, Segment.bytes, plain segment List.mem_cons_self,
        markerBytes_zero, scanFrame_segment hframe segment.short hmore]
      exact ih fun other mem => plain other (List.mem_cons_of_mem _ mem)

/-- The size of a file without fill bytes whose frame is of a known type. -/
theorem jpegDimensions_bytes (jpeg : Jpeg) (plain : jpeg.Plain) :
    jpegDimensions jpeg.bytes = .ok (jpeg.frame.width, jpeg.frame.height) := by
  have hframe : 6 ≤ jpeg.frame.bytes.length := by
    have more := jpeg.frame.more
    simp only [FrameHeader.bytes, List.length_append, length_twoBytes, List.length_cons, List.length_nil]
    omega
  have hprefix : [0xFF, 0xD8].isPrefixOf jpeg.bytes = true := rfl
  rw [jpegDimensions, if_pos hprefix, Jpeg.bytes, List.append_assoc]
  calc scanFrame ([0xFF, 0xD8] ++ (jpeg.segments.flatMap Segment.bytes ++ jpeg.frame.bytes)) 2
      = scanFrame (jpeg.segments.flatMap Segment.bytes ++ jpeg.frame.bytes) 0 :=
        scanFrame_append [0xFF, 0xD8] _ 0
    _ = scanFrame jpeg.frame.bytes 0 := scanFrame_segments plain.segments hframe
    _ = .ok (jpeg.frame.width, jpeg.frame.height) :=
        scanFrame_frame jpeg.frame plain.frame plain.marker

/-- The scan of any bytes ends inside them. -/
theorem jpegDimensions_ok (data : List UInt8) :
    ∃ dimensions, jpegDimensions data = .ok dimensions := by
  rw [jpegDimensions]
  cases [0xFF, 0xD8].isPrefixOf data with
  | true => exact scanFrame_ok data 2
  | false => exact ⟨_, rfl⟩

theorem imageDimensions_ok (data : List UInt8) (extension : String) :
    ∃ dimensions, imageDimensions data extension = .ok dimensions := by
  rw [imageDimensions]
  split
  · exact ⟨_, rfl⟩
  · split
    · exact jpegDimensions_ok data
    · split
      · exact ⟨_, rfl⟩
      · exact ⟨_, rfl⟩

/-- The scan ends inside the bytes, and it finds the size of every file without fill bytes whose
frame is of a known type. -/
theorem jpeg_size (data : List UInt8) :
    (∀ extension, ∃ dimensions, imageDimensions data extension = .ok dimensions) ∧
      (∃ dimensions, jpegDimensions data = .ok dimensions) ∧
      ∀ jpeg : Jpeg, jpeg.bytes = data → jpeg.Plain →
        jpegDimensions data = .ok (jpeg.frame.width, jpeg.frame.height) := by
  refine ⟨imageDimensions_ok data, jpegDimensions_ok data, ?_⟩
  rintro jpeg rfl plain
  exact jpegDimensions_bytes jpeg plain

end

/-- An application segment and a frame of 800 by 600. -/
def sampleJpeg (marker : UInt8) (fill : Nat) (frame : marker ∈ frameMarkers) : Jpeg where
  segments := [
    { fill := 0
      marker := 0xE0
      payload := [0x4A, 0x46, 0x49, 0x46]
      short := by decide
      other := by decide }]
  frame :=
    { fill
      marker
      length := 11
      precision := 8
      height := 600
      width := 800
      rest := [0, 0]
      frame
      short := by decide
      more := by decide }

theorem jpeg_size_sample :
    jpegDimensions (sampleJpeg 0xC0 0 (by decide)).bytes = .ok (800, 600) :=
  (jpeg_size (sampleJpeg 0xC0 0 (by decide)).bytes).2.2 (sampleJpeg 0xC0 0 (by decide)) rfl
    ⟨by decide, rfl, .inl rfl⟩

/-- An extended sequential frame, and one fill byte before a baseline frame. -/
theorem size_missed :
    jpegDimensions (sampleJpeg 0xC1 0 (by decide)).bytes = .ok (0, 0) ∧
      jpegDimensions (sampleJpeg 0xC0 1 (by decide)).bytes = .ok (0, 0) ∧
      ¬ ∀ jpeg : Jpeg,
        jpegDimensions jpeg.bytes = .ok (jpeg.frame.width, jpeg.frame.height) := by
  have extended : jpegDimensions (sampleJpeg 0xC1 0 (by decide)).bytes = .ok (0, 0) := by
    rw [jpegDimensions, if_pos (by decide)]
    rw [scanFrame_step (by decide) rfl rfl, if_neg (by decide), if_neg (by decide)]
    rw [scanFrame_step (by decide) rfl rfl, if_neg (by decide), if_neg (by decide)]
    exact scanFrame_stop (by decide)
  have filled : jpegDimensions (sampleJpeg 0xC0 1 (by decide)).bytes = .ok (0, 0) := by
    rw [jpegDimensions, if_pos (by decide)]
    rw [scanFrame_step (by decide) rfl rfl, if_neg (by decide), if_neg (by decide)]
    rw [scanFrame_step (by decide) rfl rfl, if_neg (by decide), if_neg (by decide)]
    exact scanFrame_stop (by decide)
  refine ⟨extended, filled, fun h => ?_⟩
  have hsize := (h (sampleJpeg 0xC1 0 (by decide))).symm.trans extended
  exact absurd hsize (by decide)

end ZelerPlatform.Publicador
