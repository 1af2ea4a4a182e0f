import SymbolHistory.Metadata.Serialize
import SymbolHistory.Proofs.Heap.Blob
import Mathlib.Data.List.Perm.Subperm

/-!
# Streams are found again

Metadata that is written as a list of streams has a root whose headers give every stream its place.
From metadata below 2^32 bytes each stream is read back by its name.

## Main definitions

* `Root.headersFrom` : the headers of streams that stand one behind the other.

## Main results

* `StreamHeader.parse_append` : a header is read back.
* `Root.parseHeaders_eq_ok`, `Root.exists_parse_headers` : the headers of all streams are read back.
* `Root.exists_parse` : every stream is read back by its name.
* `Root.lt_of_parse` : metadata that is read stays below 2^32 bytes.
-/

namespace SymbolHistory

open Bytes Metadata

/-! ### Headers -/

/-- The stored spelling of a stream name. -/
def StreamName.field (name : StreamName) : List UInt8 :=
  let text := name.text.toUTF8.data.toList
  text ++ List.replicate (name.fieldSize - text.length) 0

theorem StreamName.length_field (name : StreamName) : name.field.length = name.fieldSize := by
  cases name <;> decide

theorem StreamName.four_le_fieldSize (name : StreamName) : 4 ≤ name.fieldSize := by
  cases name <;> decide

/-- The spelling ends at the zero behind it. -/
theorem StreamName.takeWhile_field (name : StreamName) (rest : List UInt8) :
    ((name.field ++ rest).take 32).takeWhile (· ≠ 0) = name.text.toUTF8.data.toList := by
  cases name <;> rfl

theorem StreamName.latinText_text (name : StreamName) :
    latinText name.text.toUTF8.data.toList = name.text := by
  cases name <;> decide

/-- Thirty-two bits are read back as a word. -/
theorem ofNat_ofLittle_toLittle_four (value : UInt32) :
    UInt32.ofNat (ofLittle (toLittle 4 value.toNat)) = value := by
  rw [ofLittle_toLittle_of_lt value.toNat_lt, UInt32.ofNat_toNat]

/-- **A header is read back**, whatever follows it. -/
theorem StreamHeader.parse_append (header : StreamHeader) (rest : List UInt8) :
    parse (toLittle 4 header.offset.toNat ++ toLittle 4 header.size.toNat ++ header.name.field ++
      rest) = .ok header := by
  have long : ¬((toLittle 4 header.offset.toNat ++ toLittle 4 header.size.toNat ++
      header.name.field ++ rest).take 9).length < 9 := by
    have field := header.name.four_le_fieldSize
    rw [← header.name.length_field] at field
    simp only [List.length_take, List.length_append, length_toLittle]
    omega
  rw [parse, if_neg long]
  simp only [List.append_assoc]
  rw [← List.append_assoc (toLittle 4 header.offset.toNat), List.drop_left' (by simp),
    header.name.takeWhile_field, header.name.latinText_text, header.name.ofText?_text]
  simp only [List.append_assoc]
  rw [List.take_left' (length_toLittle _ _), List.drop_left' (length_toLittle _ _),
    List.take_left' (length_toLittle _ _), ofNat_ofLittle_toLittle_four,
    ofNat_ofLittle_toLittle_four]

namespace Root

/-- The headers of streams that stand one behind the other from byte `offset` on. -/
def headersFrom : (offset : Nat) → List (StreamName × List UInt8) → List StreamHeader
  | _, [] => []
  | offset, (name, stream) :: streams =>
    ⟨name, UInt32.ofNat offset, UInt32.ofNat stream.length⟩ ::
      headersFrom (offset + stream.length) streams

/-- How the header of the first stream is written, and then the others. -/
theorem encodeHeaders_cons_eq_ok_iff {offset : Nat} {name : StreamName} {stream : List UInt8}
    {streams : List (StreamName × List UInt8)} {bytes : List UInt8} :
    encodeHeaders offset ((name, stream) :: streams) = .ok bytes ↔
      offset < UInt32.size ∧ stream.length < UInt32.size ∧
      ∃ headers, encodeHeaders (offset + stream.length) streams = .ok headers ∧
        bytes = toLittle 4 (UInt32.ofNat offset).toNat ++
          toLittle 4 (UInt32.ofNat stream.length).toNat ++ name.field ++ headers := by
  rw [encodeHeaders, Outcome.bind_eq_ok_iff]
  constructor
  · rintro ⟨start, checked, h⟩
    obtain ⟨start_small, rfl⟩ := BlobHeap.checkSize_eq_ok_iff.1 checked
    obtain ⟨size, checked, h⟩ := Outcome.bind_eq_ok_iff.1 h
    obtain ⟨size_small, rfl⟩ := BlobHeap.checkSize_eq_ok_iff.1 checked
    obtain ⟨headers, others, h⟩ := Outcome.bind_eq_ok_iff.1 h
    exact ⟨start_small, size_small, headers, others, (Except.ok.inj h).symm⟩
  · rintro ⟨start_small, size_small, headers, others, rfl⟩
    refine ⟨_, BlobHeap.checkSize_eq_ok_iff.2 ⟨start_small, rfl⟩, ?_⟩
    rw [Outcome.bind_eq_ok_iff]
    refine ⟨_, BlobHeap.checkSize_eq_ok_iff.2 ⟨size_small, rfl⟩, ?_⟩
    rw [Outcome.bind_eq_ok_iff]
    exact ⟨headers, others, rfl⟩

/-- The size of the headers of streams. -/
def headersSize (streams : List (StreamName × List UInt8)) : Nat :=
  streams.foldl (fun size (name, _) => size + 8 + name.fieldSize) 0

theorem foldl_headersSize (streams : List (StreamName × List UInt8)) (size : Nat) :
    streams.foldl (fun size (name, _) => size + 8 + name.fieldSize) size =
      size + headersSize streams := by
  induction streams generalizing size with
  | nil => rfl
  | cons stream streams ih =>
      obtain ⟨name, stream⟩ := stream
      rw [headersSize, List.foldl_cons, List.foldl_cons]
      simp only
      rw [ih, ih]
      omega

theorem headersSize_cons (name : StreamName) (stream : List UInt8)
    (streams : List (StreamName × List UInt8)) :
    headersSize ((name, stream) :: streams) = 8 + name.fieldSize + headersSize streams := by
  rw [headersSize, List.foldl_cons, foldl_headersSize, Nat.zero_add]

/-- Headers take the size that is reckoned with. -/
theorem length_of_encodeHeaders {offset : Nat} {streams : List (StreamName × List UInt8)}
    {bytes : List UInt8} (h : encodeHeaders offset streams = .ok bytes) :
    bytes.length = headersSize streams := by
  induction streams generalizing offset bytes with
  | nil =>
      obtain rfl := Except.ok.inj h
      rfl
  | cons stream streams ih =>
      obtain ⟨name, stream⟩ := stream
      obtain ⟨-, -, headers, others, rfl⟩ := encodeHeaders_cons_eq_ok_iff.1 h
      rw [headersSize_cons, ← ih others]
      simp only [List.length_append, length_toLittle, name.length_field]

/-- The first header is read from where it was written, and checked; then the others follow. -/
theorem parseHeaders_cons {data rest bytes : List UInt8} {position offset : Nat}
    {name : StreamName} {stream : List UInt8} {streams : List (StreamName × List UInt8)}
    (h : encodeHeaders offset ((name, stream) :: streams) = .ok bytes)
    (placed : data.drop position = bytes ++ rest) (length : Nat) (found : List StreamHeader) :
    ∃ headers next, encodeHeaders (offset + stream.length) streams = .ok headers ∧
      data.drop next = headers ++ rest ∧
      parseHeaders data length (streams.length + 1) position found =
        if UInt32.size ≤ offset + stream.length then
          .error (.malformed (.streamRange offset stream.length))
        else if length < offset + stream.length then .error .outOfBounds
        else if found.any (·.name = name) then .error (.malformed (.streamTwice name.text))
        else parseHeaders data length streams.length next
          (found ++ [⟨name, UInt32.ofNat offset, UInt32.ofNat stream.length⟩]) := by
  obtain ⟨start_small, size_small, headers, others, rfl⟩ := encodeHeaders_cons_eq_ok_iff.1 h
  set header : StreamHeader := ⟨name, UInt32.ofNat offset, UInt32.ofNat stream.length⟩
    with header_eq
  have read : StreamHeader.parse (data.drop position) = .ok header := by
    rw [placed, List.append_assoc]
    exact header.parse_append (headers ++ rest)
  have start : header.offset.toNat = offset := UInt32.toNat_ofNat_of_lt' start_small
  have size : header.size.toNat = stream.length := UInt32.toNat_ofNat_of_lt' size_small
  refine ⟨headers, position + header.storedSize, others, ?_, ?_⟩
  · rw [← List.drop_drop, placed, List.append_assoc, StreamHeader.storedSize]
    refine List.drop_left' ?_
    simp only [List.length_append, length_toLittle, name.length_field, header_eq]
  · rw [parseHeaders, Outcome.bind_of_ok read]
    simp only [start, size]
    rfl

/-- **The headers of all streams are read back**, if the streams lie in the data and have different
names. -/
theorem parseHeaders_eq_ok {data rest bytes : List UInt8} {length position offset : Nat}
    {streams : List (StreamName × List UInt8)} {found : List StreamHeader}
    (h : encodeHeaders offset streams = .ok bytes) (placed : data.drop position = bytes ++ rest)
    (inside : offset + (streams.flatMap (·.2)).length ≤ length) (small : length < UInt32.size)
    (distinct : (found.map (·.name) ++ streams.map (·.1)).Nodup) :
    parseHeaders data length streams.length position found =
      .ok (found ++ headersFrom offset streams) := by
  induction streams generalizing offset position found bytes with
  | nil =>
      rw [headersFrom, List.append_nil]
      rfl
  | cons stream streams ih =>
      obtain ⟨name, stream⟩ := stream
      obtain ⟨headers, next, others, behind, step⟩ := parseHeaders_cons h placed length found
      have inside : offset + (stream.length + (streams.flatMap (·.2)).length) ≤ length := by
        rwa [List.flatMap_cons, List.length_append] at inside
      have fresh : ¬(found.any fun other => decide (other.name = name)) := by
        intro twice
        obtain ⟨other, mem, same⟩ := List.any_eq_true.1 twice
        refine (List.nodup_append.1 distinct).2.2 other.name (List.mem_map_of_mem mem) name
          List.mem_cons_self ?_
        simpa using same
      rw [List.length_cons, step, if_neg (by omega), if_neg (by omega), if_neg fresh,
        ih others behind (by omega), headersFrom, List.append_assoc]
      · rfl
      · rw [List.map_append, List.append_assoc]
        exact distinct

/-- Where headers are read, the streams end below 2^32: that is checked for each of them. -/
theorem lt_of_parseHeaders {data rest bytes : List UInt8} {length position offset : Nat}
    {streams : List (StreamName × List UInt8)} {found headers : List StreamHeader}
    (h : encodeHeaders offset streams = .ok bytes) (placed : data.drop position = bytes ++ rest)
    (start : offset < UInt32.size)
    (read : parseHeaders data length streams.length position found = .ok headers) :
    offset + (streams.flatMap (·.2)).length < UInt32.size := by
  induction streams generalizing offset position found bytes with
  | nil => exact start
  | cons stream streams ih =>
      obtain ⟨name, stream⟩ := stream
      obtain ⟨rest_headers, next, others, behind, step⟩ := parseHeaders_cons h placed length found
      rw [List.length_cons, step] at read
      split at read
      · cases read
      · next small =>
        split at read
        · cases read
        · split at read
          · cases read
          · have small := ih others behind (Nat.not_le.1 small) read
            rw [List.flatMap_cons, List.length_append]
            simp only
            omega

/-- The headers of streams have their names, in order. -/
theorem map_name_headersFrom (offset : Nat) (streams : List (StreamName × List UInt8)) :
    (headersFrom offset streams).map (·.name) = streams.map (·.1) := by
  induction streams generalizing offset with
  | nil => rfl
  | cons stream streams ih => rw [headersFrom, List.map_cons, ih, List.map_cons]

/-- A stream is found by its name, where the streams stand one behind the other. -/
theorem find?_headersFrom {data : List UInt8} {offset : Nat}
    {streams : List (StreamName × List UInt8)} (placed : data.drop offset = streams.flatMap (·.2))
    (small : offset + (streams.flatMap (·.2)).length < UInt32.size) (name : StreamName) :
    ((headersFrom offset streams).find? fun header => decide (header.name = name)).map
        (fun header => (data.drop header.offset.toNat).take header.size.toNat) =
      streams.lookup name := by
  induction streams generalizing offset with
  | nil => rfl
  | cons stream streams ih =>
      obtain ⟨first, stream⟩ := stream
      rw [List.flatMap_cons] at placed
      have small : offset + (stream.length + (streams.flatMap (·.2)).length) < UInt32.size := by
        rwa [List.flatMap_cons, List.length_append] at small
      rw [headersFrom, List.lookup_cons, List.find?_cons]
      by_cases same : first = name
      · subst same
        simp only [decide_true, Option.map_some, beq_self_eq_true]
        rw [UInt32.toNat_ofNat_of_lt' (by omega), UInt32.toNat_ofNat_of_lt' (by omega), placed,
          List.take_left]
      · have other : (name == first) = false := by simpa using Ne.symm same
        have tail : data.drop (offset + stream.length) = streams.flatMap (·.2) := by
          rw [← List.drop_drop, placed, List.drop_left]
        simp only [same, decide_false, other]
        exact ih tail (by omega)

/-! ### Roots -/

/-- The root up to the number of streams, which is the same for all metadata. -/
def fixedStart : List UInt8 :=
  let versionLength := roundUp4 (Metadata.version.length + 1)
  toLittle 4 magic.toNat ++ toLittle 2 1 ++ toLittle 2 1 ++ toLittle 4 0 ++
    toLittle 4 versionLength ++ Metadata.version ++
    List.replicate (versionLength - Metadata.version.length) 0 ++ toLittle 2 0

theorem length_fixedStart : fixedStart.length = 30 := by
  decide

/-- How streams are written: the start, the headers, and the streams one behind the other. -/
theorem encodeRoot_eq_ok_iff {streams : List (StreamName × List UInt8)} {data : List UInt8} :
    encodeRoot streams = .ok data ↔
      ∃ headers, encodeHeaders (32 + headersSize streams) streams = .ok headers ∧
        data = fixedStart ++ (toLittle 2 streams.length ++ (headers ++ streams.flatMap (·.2))) := by
  have length : (fixedStart ++ toLittle 2 streams.length).length = 32 := by
    rw [List.length_append, length_fixedStart, length_toLittle]
  have unfolded : encodeRoot streams =
      (encodeHeaders ((fixedStart ++ toLittle 2 streams.length).length + headersSize streams)
        streams >>= fun headers =>
          .ok (fixedStart ++ toLittle 2 streams.length ++ headers ++ streams.flatMap (·.2))) := rfl
  rw [unfolded, length, Outcome.bind_eq_ok_iff]
  simp only [Except.ok.injEq, List.append_assoc, eq_comm]

/-- A field of the fixed start is the same in all metadata. -/
theorem field_of_fixedStart {position width : Nat} (rest : List UInt8)
    (inside : position + width ≤ fixedStart.length) :
    ((fixedStart ++ rest).drop position).take width = (fixedStart.drop position).take width := by
  rw [List.drop_append_of_le_length (by omega), List.take_append_of_le_length]
  rw [List.length_drop]
  omega

/-- There are not more streams than names. -/
theorem length_le_of_nodup {streams : List (StreamName × List UInt8)}
    (distinct : (streams.map (·.1)).Nodup) : streams.length ≤ StreamName.all.length := by
  have all : streams.map (·.1) ⊆ StreamName.all := by
    intro name _
    cases name <;> decide
  have le := (List.subperm_of_subset distinct all).length_le
  rwa [List.length_map] at le

theorem length_of_encodeRoot {streams : List (StreamName × List UInt8)} {data : List UInt8}
    (h : encodeRoot streams = .ok data) :
    data.length = 32 + headersSize streams + (streams.flatMap (·.2)).length := by
  obtain ⟨headers, written, rfl⟩ := encodeRoot_eq_ok_iff.1 h
  rw [← length_of_encodeHeaders written]
  simp only [List.length_append, length_fixedStart, length_toLittle]
  omega

/-- Headers can be written if the last stream ends below 2^32. -/
theorem exists_encodeHeaders {offset : Nat} {streams : List (StreamName × List UInt8)}
    (small : offset + (streams.flatMap (·.2)).length < UInt32.size) :
    ∃ headers, encodeHeaders offset streams = .ok headers := by
  induction streams generalizing offset with
  | nil => exact ⟨[], rfl⟩
  | cons stream streams ih =>
      obtain ⟨name, stream⟩ := stream
      have small : offset + (stream.length + (streams.flatMap (·.2)).length) < UInt32.size := by
        rwa [List.flatMap_cons, List.length_append] at small
      obtain ⟨headers, written⟩ := ih
        (by omega : offset + stream.length + (streams.flatMap (·.2)).length < UInt32.size)
      exact ⟨_, encodeHeaders_cons_eq_ok_iff.2 ⟨by omega, by omega, headers, written, rfl⟩⟩

/-- **Streams can be written** if the metadata stays below 2^32 bytes. -/
theorem exists_encodeRoot {streams : List (StreamName × List UInt8)}
    (small : 32 + headersSize streams + (streams.flatMap (·.2)).length < UInt32.size) :
    ∃ data, encodeRoot streams = .ok data := by
  obtain ⟨headers, written⟩ := exists_encodeHeaders small
  exact ⟨_, encodeRoot_eq_ok_iff.2 ⟨headers, written, rfl⟩⟩

/-- A root is read up to the headers of the streams, which come next, whatever stands there. -/
theorem exists_parse_eq_map_of_append {streams : List (StreamName × List UInt8)}
    (nonempty : streams ≠ []) (distinct : (streams.map (·.1)).Nodup) {data rest : List UInt8}
    (h : data = fixedStart ++ (toLittle 2 streams.length ++ rest)) :
    ∃ make : List StreamHeader → Root, (∀ headers, (make headers).headers = headers) ∧
      (∀ headers, (make headers).versionLength = 12) ∧
      parse data = make <$> parseHeaders data data.length streams.length 32 [] := by
  have few := length_le_of_nodup distinct
  have positive : 0 < streams.length := List.length_pos_iff.2 nonempty
  have fields : ∀ position width, position + width ≤ fixedStart.length →
      ofLittle ((data.drop position).take width) =
        ofLittle ((fixedStart.drop position).take width) := by
    intro position width inside
    rw [h, field_of_fixedStart _ inside]
  have signature : ofLittle ((data.drop 0).take 4) = magic.toNat := by
    rw [fields 0 4 (by decide)]
    decide
  have versionLength : ofLittle ((data.drop 12).take 4) = 12 := by
    rw [fields 12 4 (by decide)]
    decide
  have count : ofLittle ((data.drop 30).take 2) = streams.length := by
    rw [h, List.drop_left' length_fixedStart, List.take_left' (length_toLittle _ _),
      ofLittle_toLittle_of_lt]
    rw [show capacity 2 = 65536 by decide]
    have all : StreamName.all.length = 8 := rfl
    omega
  have length : 32 ≤ data.length := by
    rw [h]
    simp only [List.length_append, length_fixedStart, length_toLittle]
    omega
  refine ⟨fun headers => ⟨magic, UInt16.ofNat (ofLittle ((data.drop 4).take 2)),
    UInt16.ofNat (ofLittle ((data.drop 6).take 2)), UInt32.ofNat (ofLittle ((data.drop 8).take 4)),
    UInt32.ofNat 12, latinText (((data.drop 16).take 12).takeWhile (· ≠ 0)),
    UInt16.ofNat (ofLittle ((data.drop 28).take 2)), headers⟩, fun _ => rfl, fun _ => rfl, ?_⟩
  rw [parse]
  simp only
  rw [if_neg (by omega), signature, if_neg (fun ne => ne rfl), versionLength,
    if_neg (by omega), count, if_neg (by omega)]
  rfl

/-- **The root of metadata that was written** is read up to the headers of the streams, which come
next. -/
theorem exists_parse_eq_map {streams : List (StreamName × List UInt8)} {data : List UInt8}
    (h : encodeRoot streams = .ok data) (nonempty : streams ≠ [])
    (distinct : (streams.map (·.1)).Nodup) :
    ∃ make : List StreamHeader → Root, (∀ headers, (make headers).headers = headers) ∧
      (∀ headers, (make headers).versionLength = 12) ∧
      parse data = make <$> parseHeaders data data.length streams.length 32 [] := by
  obtain ⟨headers, -, data_eq⟩ := encodeRoot_eq_ok_iff.1 h
  exact exists_parse_eq_map_of_append nonempty distinct data_eq

/-- The headers stand behind the number of streams. -/
theorem drop_of_encodeRoot {streams : List (StreamName × List UInt8)} {data : List UInt8}
    (h : encodeRoot streams = .ok data) :
    ∃ headers, encodeHeaders (32 + headersSize streams) streams = .ok headers ∧
      data.drop 32 = headers ++ streams.flatMap (·.2) := by
  obtain ⟨headers, written, rfl⟩ := encodeRoot_eq_ok_iff.1 h
  refine ⟨headers, written, ?_⟩
  rw [show 32 = 30 + 2 by rfl, ← List.drop_drop, List.drop_left' length_fixedStart]
  exact List.drop_left' (length_toLittle _ _)

/-- The streams stand behind the headers. -/
theorem drop_streams_of_encodeRoot {streams : List (StreamName × List UInt8)} {data : List UInt8}
    (h : encodeRoot streams = .ok data) :
    data.drop (32 + headersSize streams) = streams.flatMap (·.2) := by
  obtain ⟨headers, written, placed⟩ := drop_of_encodeRoot h
  rw [← List.drop_drop, placed]
  exact List.drop_left' (length_of_encodeHeaders written)

/-- **All headers are read back**, from metadata below 2^32 bytes. -/
theorem exists_parse_headers {streams : List (StreamName × List UInt8)} {data : List UInt8}
    (h : encodeRoot streams = .ok data) (nonempty : streams ≠ [])
    (distinct : (streams.map (·.1)).Nodup) (small : data.length < UInt32.size) :
    ∃ root, parse data = .ok root ∧ root.versionLength = 12 ∧
      root.headers = headersFrom (32 + headersSize streams) streams := by
  obtain ⟨make, headers_eq, version_eq, parse_eq⟩ := exists_parse_eq_map h nonempty distinct
  obtain ⟨headers, written, placed⟩ := drop_of_encodeRoot h
  have length := length_of_encodeRoot h
  have read : parseHeaders data data.length streams.length 32 [] =
      .ok (headersFrom (32 + headersSize streams) streams) :=
    parseHeaders_eq_ok written placed (by omega) small distinct
  refine ⟨make (headersFrom (32 + headersSize streams) streams), ?_, version_eq _, headers_eq _⟩
  rw [parse_eq, read]
  rfl

/-- **Every stream is read back by its name**, from metadata below 2^32 bytes. -/
theorem exists_parse {streams : List (StreamName × List UInt8)} {data : List UInt8}
    (h : encodeRoot streams = .ok data) (nonempty : streams ≠ [])
    (distinct : (streams.map (·.1)).Nodup) (small : data.length < UInt32.size) :
    ∃ root, parse data = .ok root ∧ root.headers.map (·.name) = streams.map (·.1) ∧
      ∀ name, root.stream? data name = streams.lookup name := by
  obtain ⟨root, read, -, headers_eq⟩ := exists_parse_headers h nonempty distinct small
  have length := length_of_encodeRoot h
  refine ⟨root, read, ?_, fun name => ?_⟩
  · rw [headers_eq]
    exact map_name_headersFrom _ _
  · rw [stream?, headers_eq]
    exact find?_headersFrom (drop_streams_of_encodeRoot h) (by omega) name

/-- Metadata that is read at all stays below 2^32 bytes, as its last stream ends there. -/
theorem lt_of_parse {streams : List (StreamName × List UInt8)} {data : List UInt8} {root : Root}
    (h : encodeRoot streams = .ok data) (nonempty : streams ≠ [])
    (distinct : (streams.map (·.1)).Nodup) (read : parse data = .ok root) :
    data.length < UInt32.size := by
  obtain ⟨make, -, -, parse_eq⟩ := exists_parse_eq_map h nonempty distinct
  obtain ⟨bytes, written, placed⟩ := drop_of_encodeRoot h
  rw [parse_eq, Outcome.map_eq_ok_iff] at read
  obtain ⟨headers, headers_read, -⟩ := read
  have start : 32 + headersSize streams < UInt32.size := by
    cases streams with
    | nil => exact absurd rfl nonempty
    | cons stream streams => exact (encodeHeaders_cons_eq_ok_iff.1 written).1
  rw [length_of_encodeRoot h]
  exact lt_of_parseHeaders written placed start headers_read

end Root

end SymbolHistory
