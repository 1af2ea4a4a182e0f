import SymbolHistory.Proofs.Metadata.RoundTrip

/-!
# Metadata that is cut off

Written metadata has its streams at its end, one behind the other, and the header of a stream says
where the stream ends. So there is no place where metadata could be cut off unnoticed: in front of
the headers something is missing that has a fixed place, among the headers the first one tells of a
stream behind the end, and among the streams the last one does.

## Main definitions

* `Root.LaidOut` : the streams fill the metadata behind the headers, on multiples of 4.

## Main results

* `Root.exists_error_of_take` : no beginning of written metadata has a root.
* `Root.laidOut_of_encodeRoot` : the streams of written metadata are laid out.
* `Metadata.cut_is_noticed` : both, for the metadata of any symbols.
-/

namespace SymbolHistory

open Bytes Metadata

/-! ### Roots of metadata that is cut off -/

/-- A header that is read has its first four bytes as the place of the stream. -/
theorem StreamHeader.offset_of_parse {bytes : List UInt8} {header : StreamHeader}
    (h : parse bytes = .ok header) :
    9 ≤ bytes.length ∧ header.offset = UInt32.ofNat (ofLittle (bytes.take 4)) := by
  rw [parse] at h
  split at h
  · cases h
  · next long =>
    rw [List.length_take] at long
    dsimp only at h
    split at h
    · cases h
    · cases h
      exact ⟨by omega, rfl⟩

namespace Root

/-- A header is not accepted if its stream starts behind the end. The header may be cut off itself:
what is left of the name can spell another one, but the place of the stream stands in front of
it. -/
theorem parseHeaders_of_start_lt {data behind : List UInt8} {length position offset : Nat}
    (cut : data.drop position <+: toLittle 4 offset ++ behind) (small : offset < UInt32.size)
    (late : length < offset) (count : Nat) (found : List StreamHeader) :
    ∃ e, parseHeaders data length (count + 1) position found = .error e := by
  rw [parseHeaders]
  cases read : StreamHeader.parse (data.drop position) with
  | error e => exact ⟨e, rfl⟩
  | ok header =>
      obtain ⟨long, place⟩ := StreamHeader.offset_of_parse read
      have front : (data.drop position).take 4 = toLittle 4 offset := by
        obtain ⟨rest, whole⟩ := cut
        have fronts := congrArg (List.take 4) whole
        rwa [List.take_append_of_le_length (by omega),
          List.take_left' (length_toLittle _ _)] at fronts
      have start : header.offset.toNat = offset := by
        rw [place, front, ofLittle_toLittle_of_lt small, UInt32.toNat_ofNat_of_lt' small]
      rw [Outcome.bind_of_ok rfl]
      simp only [start]
      split
      · exact ⟨_, rfl⟩
      · rw [if_pos (by omega)]
        exact ⟨_, rfl⟩

/-- Not all headers are accepted if the last stream ends behind the end. -/
theorem parseHeaders_of_stop_lt {data rest bytes : List UInt8} {length position offset : Nat}
    {streams : List (StreamName × List UInt8)} {found : List StreamHeader}
    (h : encodeHeaders offset streams = .ok bytes) (placed : data.drop position = bytes ++ rest)
    (nonempty : streams ≠ []) (late : length < offset + (streams.flatMap (·.2)).length) :
    ∃ e, parseHeaders data length streams.length position found = .error e := by
  induction streams generalizing offset position found bytes with
  | nil => exact absurd rfl nonempty
  | cons stream streams ih =>
      obtain ⟨name, stream⟩ := stream
      obtain ⟨headers, next, others, behind, step⟩ := parseHeaders_cons h placed length found
      have late : length < offset + (stream.length + (streams.flatMap (·.2)).length) := by
        rwa [List.flatMap_cons, List.length_append] at late
      rw [List.length_cons, step]
      split
      · exact ⟨_, rfl⟩
      split
      · exact ⟨_, rfl⟩
      next inside =>
      split
      · exact ⟨_, rfl⟩
      · refine ih others behind ?_ (by omega)
        rintro rfl
        rw [List.flatMap_nil, List.length_nil] at late
        omega

/-- The fields in front of the headers are there, or metadata has no root. -/
theorem exists_error_of_short {streams : List (StreamName × List UInt8)} {data : List UInt8}
    (h : encodeRoot streams = .ok data) {size : Nat} (short : size < 32) :
    ∃ e, parse (data.take size) = .error e := by
  have long := length_of_encodeRoot h
  have length : (data.take size).length = size := by
    rw [List.length_take]
    omega
  rw [parse]
  simp only [length]
  split
  · exact ⟨_, rfl⟩
  next enough =>
  split
  · exact ⟨_, rfl⟩
  · have versionLength : ofLittle (((data.take size).drop 12).take 4) = 12 := by
      obtain ⟨headers, -, rfl⟩ := encodeRoot_eq_ok_iff.1 h
      rw [List.drop_take, List.take_take, Nat.min_eq_left (by omega),
        field_of_fixedStart _ (by rw [length_fixedStart]; omega)]
      decide
    rw [versionLength, if_pos (by omega)]
    exact ⟨_, rfl⟩

/-- What is cut off behind the fields has all of them. -/
theorem take_eq_fixedStart_append {streams : List (StreamName × List UInt8)} {data : List UInt8}
    (h : encodeRoot streams = .ok data) {size : Nat} (enough : 32 ≤ size) :
    data.take size =
      fixedStart ++ (toLittle 2 streams.length ++ (data.take size).drop 32) := by
  obtain ⟨_, -, data_eq⟩ := encodeRoot_eq_ok_iff.1 h
  have front : (data.take size).take 32 = fixedStart ++ toLittle 2 streams.length := by
    rw [List.take_take, Nat.min_eq_left enough, data_eq, ← List.append_assoc]
    refine List.take_left' ?_
    rw [List.length_append, length_fixedStart, length_toLittle]
  rw [← List.append_assoc, ← front, List.take_append_drop]

/-- The headers of metadata that is cut off behind the fields are not all accepted. -/
theorem exists_parseHeaders_error_of_take {streams : List (StreamName × List UInt8)}
    {data : List UInt8} (h : encodeRoot streams = .ok data) (nonempty : streams ≠ []) {size : Nat}
    (enough : 32 ≤ size) (cut : size < data.length) :
    ∃ e, parseHeaders (data.take size) size streams.length 32 [] = .error e := by
  have total := length_of_encodeRoot h
  obtain ⟨headers, written, placed⟩ := drop_of_encodeRoot h
  have behind : (data.take size).drop 32 = (data.drop 32).take (size - 32) := List.drop_take
  by_cases among : size < 32 + headersSize streams
  · -- The first header tells of a stream behind all headers.
    cases streams with
    | nil => exact absurd rfl nonempty
    | cons stream streams =>
        obtain ⟨small, -, others, -, rfl⟩ := encodeHeaders_cons_eq_ok_iff.1 written
        rw [UInt32.toNat_ofNat_of_lt' small] at placed
        simp only [List.append_assoc] at placed
        have early := List.take_prefix (size - 32) (data.drop 32)
        rw [← behind, placed] at early
        exact parseHeaders_of_start_lt early small among streams.length []
  · -- All headers are there, and the last one tells where the metadata ends.
    have complete : (data.take size).drop 32 =
        headers ++ (streams.flatMap (·.2)).take (size - 32 - headers.length) := by
      rw [behind, placed, List.take_append, List.take_of_length_le]
      rw [length_of_encodeHeaders written]
      omega
    exact parseHeaders_of_stop_lt written complete nonempty (by omega)

/-- **No beginning of written metadata has a root.** -/
theorem exists_error_of_take {streams : List (StreamName × List UInt8)} {data : List UInt8}
    (h : encodeRoot streams = .ok data) (nonempty : streams ≠ [])
    (distinct : (streams.map (·.1)).Nodup) {size : Nat} (cut : size < data.length) :
    ∃ e, parse (data.take size) = .error e := by
  by_cases short : size < 32
  · exact exists_error_of_short h short
  have enough : 32 ≤ size := Nat.le_of_not_lt short
  have length : (data.take size).length = size := List.length_take_of_le cut.le
  obtain ⟨make, -, -, parse_eq⟩ :=
    exists_parse_eq_map_of_append nonempty distinct (take_eq_fixedStart_append h enough)
  obtain ⟨e, failed⟩ := exists_parseHeaders_error_of_take h nonempty enough cut
  rw [parse_eq, length, failed]
  exact ⟨e, rfl⟩

/-! ### Roots of metadata that is whole -/

/-- The number of bytes of a root with its headers. -/
def size (root : Root) : Nat :=
  20 + root.versionLength.toNat + (root.headers.map (·.storedSize)).sum

/-- The streams of a root fill metadata of `length` bytes behind the headers. -/
structure LaidOut (root : Root) (length : Nat) : Prop where
  /-- All streams start on multiples of 4. -/
  aligned : ∀ header ∈ root.headers, header.offset.toNat % 4 = 0
  /-- The first stream starts behind the headers. -/
  first : ∀ header ∈ root.headers.head?, header.offset.toNat = root.size
  /-- Every other stream starts where the one before it ends. -/
  consecutive : root.headers.IsChain fun header next =>
    next.offset.toNat = header.offset.toNat + header.size.toNat
  /-- The last stream ends where the metadata ends. -/
  last : ∀ header ∈ root.headers.getLast?, header.offset.toNat + header.size.toNat = length

/-- Headers take what is reckoned for them. -/
theorem sum_storedSize_headersFrom (offset : Nat) (streams : List (StreamName × List UInt8)) :
    ((headersFrom offset streams).map (·.storedSize)).sum = headersSize streams := by
  induction streams generalizing offset with
  | nil => rfl
  | cons stream streams ih =>
      obtain ⟨name, stream⟩ := stream
      rw [headersFrom, List.map_cons, List.sum_cons, ih, headersSize_cons]
      rfl

theorem headersSize_mod (streams : List (StreamName × List UInt8)) :
    headersSize streams % 4 = 0 := by
  induction streams with
  | nil => rfl
  | cons stream streams ih =>
      obtain ⟨name, stream⟩ := stream
      rw [headersSize_cons, StreamName.fieldSize, roundUp4]
      omega

/-- Streams whose sizes are multiples of 4 start on multiples of 4. -/
theorem aligned_headersFrom {offset : Nat} {streams : List (StreamName × List UInt8)}
    (start : offset % 4 = 0) (even : ∀ stream ∈ streams, stream.2.length % 4 = 0)
    (small : offset + (streams.flatMap (·.2)).length < UInt32.size) :
    ∀ header ∈ headersFrom offset streams, header.offset.toNat % 4 = 0 := by
  induction streams generalizing offset with
  | nil => exact fun _ mem => absurd mem List.not_mem_nil
  | cons stream streams ih =>
      obtain ⟨name, stream⟩ := stream
      obtain ⟨first, others⟩ := List.forall_mem_cons.1 even
      have small : offset + (stream.length + (streams.flatMap (·.2)).length) < UInt32.size := by
        rwa [List.flatMap_cons, List.length_append] at small
      refine List.forall_mem_cons.2 ⟨?_, ih ?_ others (by omega)⟩
      · simp only
        rw [UInt32.toNat_ofNat_of_lt' (by omega), start]
      · have first : stream.length % 4 = 0 := first
        omega

/-- Streams stand one behind the other, and the last one ends behind all of them. -/
theorem consecutive_headersFrom {offset : Nat} {streams : List (StreamName × List UInt8)}
    (small : offset + (streams.flatMap (·.2)).length < UInt32.size) :
    ((headersFrom offset streams).IsChain fun header next =>
      next.offset.toNat = header.offset.toNat + header.size.toNat) ∧
    ∀ header ∈ (headersFrom offset streams).getLast?,
      header.offset.toNat + header.size.toNat = offset + (streams.flatMap (·.2)).length := by
  induction streams generalizing offset with
  | nil => exact ⟨.nil, fun _ none => absurd none (Option.not_mem_none _)⟩
  | cons stream streams ih =>
      obtain ⟨name, stream⟩ := stream
      have small : offset + (stream.length + (streams.flatMap (·.2)).length) < UInt32.size := by
        rwa [List.flatMap_cons, List.length_append] at small
      have start : (UInt32.ofNat offset).toNat = offset := UInt32.toNat_ofNat_of_lt' (by omega)
      have size : (UInt32.ofNat stream.length).toNat = stream.length :=
        UInt32.toNat_ofNat_of_lt' (by omega)
      obtain ⟨chain, last⟩ :=
        ih (show offset + stream.length + (streams.flatMap (·.2)).length < UInt32.size by omega)
      rw [List.flatMap_cons, List.length_append, ← Nat.add_assoc]
      cases streams with
      | nil =>
          refine ⟨.singleton _, fun header mem => ?_⟩
          simp only [headersFrom, List.getLast?_singleton, Option.mem_some_iff] at mem
          subst mem
          simp [start, size]
      | cons other streams =>
          obtain ⟨next, other⟩ := other
          refine ⟨.cons_cons ?_ chain, last⟩
          simp only
          rw [start, size, UInt32.toNat_ofNat_of_lt' (by omega)]

/-- **The streams of written metadata are laid out** below 2^32 bytes. -/
theorem laidOut_of_encodeRoot {streams : List (StreamName × List UInt8)} {data : List UInt8}
    (h : encodeRoot streams = .ok data) (nonempty : streams ≠ [])
    (distinct : (streams.map (·.1)).Nodup) (even : ∀ stream ∈ streams, stream.2.length % 4 = 0)
    (small : data.length < UInt32.size) :
    ∃ root, parse data = .ok root ∧ root.headers.map (·.name) = streams.map (·.1) ∧
      root.LaidOut data.length := by
  have length := length_of_encodeRoot h
  obtain ⟨root, read, version_eq, headers_eq⟩ := exists_parse_headers h nonempty distinct small
  have start : (32 + headersSize streams) % 4 = 0 := by
    have := headersSize_mod streams
    omega
  have ends : 32 + headersSize streams + (streams.flatMap (·.2)).length < UInt32.size :=
    length ▸ small
  obtain ⟨consecutive, last⟩ := consecutive_headersFrom ends
  refine ⟨root, read, ?_, ?_, ?_, ?_, ?_⟩
  · rw [headers_eq]
    exact map_name_headersFrom _ _
  · rw [headers_eq]
    exact aligned_headersFrom start even ends
  · rw [size, version_eq, headers_eq, sum_storedSize_headersFrom]
    cases streams with
    | nil => exact absurd rfl nonempty
    | cons stream streams =>
        intro header mem
        obtain rfl := Option.some.inj mem
        exact UInt32.toNat_ofNat_of_lt' (by omega)
  · rw [headers_eq]
    exact consecutive
  · rw [headers_eq, length]
    exact last

end Root

/-! ### Streams -/

theorem ModuleInfo.length_encode_mod (info : ModuleInfo) : info.encode.length % 4 = 0 := by
  have counts := length_flatMap_of_forall (fun entry : Fin 64 × UInt32 => length_toLittle 4
    entry.2.toNat) ((RowCounts.tablesOf info.referenced).map fun number =>
      (number, info.rows.get number))
  rw [← RowCounts.encode_eq] at counts
  simp only [encode, List.length_append, length_toLittle, Vector.length_toList, counts]
  omega

namespace Metadata

theorem length_pad_mod (bytes : List UInt8) : (pad bytes).length % 4 = 0 := by
  simp only [pad, List.length_append, List.length_replicate, roundUp4]
  omega

/-- The sizes of all streams that are written are multiples of 4. -/
theorem length_streams_mod (info : Option ModuleInfo) (tables : List UInt8) (heaps : Heaps) :
    ∀ stream ∈ streams info (pad tables) heaps, stream.2.length % 4 = 0 := by
  have module : ∀ stream ∈ moduleStreams info, stream.2.length % 4 = 0 := by
    cases info with
    | none => exact fun _ mem => absurd mem List.not_mem_nil
    | some info => exact List.forall_mem_singleton.2 info.length_encode_mod
  have guids : heaps.guids.toBytes.length % 4 = 0 := by
    rw [heaps.guids.length_toBytes]
    omega
  intro stream mem
  rcases List.mem_append.1 mem with mem | mem
  · exact module stream mem
  · simp only [List.mem_cons, List.not_mem_nil, or_false] at mem
    rcases mem with rfl | rfl | rfl | rfl | rfl
    · exact length_pad_mod tables
    · rfl
    · rfl
    · exact guids
    · exact length_pad_mod _

/-- The names of the streams that are written: the module first, if there is one. -/
def streamNames (metadata : Metadata) : List StreamName :=
  (if metadata.module.isSome then [.pdb] else []) ++ [.tables, .strings, .userStrings, .guid, .blob]

theorem map_name_streams (metadata : Metadata) (tables : List UInt8) (heaps : Heaps) :
    (streams metadata.module tables heaps).map (·.1) = metadata.streamNames := by
  rw [streamNames]
  cases metadata.module <;> rfl

/-- **Metadata that is cut off is not read**, wherever the cut is. Below 2^32 bytes, whole metadata
has a root whose streams fill it behind the headers, in a fixed order. -/
theorem cut_is_noticed {metadata : Metadata} {data : List UInt8}
    (h : serialize metadata = .ok data) :
    (∀ size < data.length, ∃ e, parse (data.take size) = .error e) ∧
      (data.length < UInt32.size → ∃ root, Root.parse data = .ok root ∧
        root.headers.map (·.name) = metadata.streamNames ∧ root.LaidOut data.length) := by
  obtain ⟨first, documents, blobs, methods, tables, -, -, tables_written, root_written⟩ :=
    serialize_eq_ok_iff.1 h
  have nonempty : streams metadata.module tables ⟨blobs, first.guids⟩ ≠ [] := by simp [streams]
  have distinct := (names_streams metadata.module tables ⟨blobs, first.guids⟩).1
  constructor
  · intro size cut
    obtain ⟨e, failed⟩ := Root.exists_error_of_take root_written nonempty distinct cut
    exact ⟨e, by rw [parse, Outcome.bind_of_error failed]⟩
  · intro small
    have tables_written : encodeTables (Rows.mk metadata.encMap documents methods).encMap documents
      methods ⟨blobs, first.guids⟩ = .ok tables := tables_written
    obtain ⟨-, rfl⟩ := encodeTables_eq_ok_iff.1 tables_written
    rw [← map_name_streams metadata]
    exact Root.laidOut_of_encodeRoot root_written nonempty distinct
      (length_streams_mod _ _ _) small

/-- The symbols of a module with mixed paths are noticed to be cut off. -/
theorem cut_is_noticed_mixedPaths :
    ∃ data, serialize mixedPaths = .ok data ∧ data.length < UInt32.size ∧
      (∀ size < data.length, ∃ e, parse (data.take size) = .error e) ∧
      ∃ root, Root.parse data = .ok root ∧
        root.headers.map (·.name) = [.pdb, .tables, .strings, .userStrings, .guid, .blob] ∧
        root.LaidOut data.length := by
  have content : mixedPaths.contentSize < 2 ^ 20 := by decide
  obtain ⟨data, written, small⟩ :=
    exists_serialize content (by decide) (by decide) (by decide)
  obtain ⟨cut, whole⟩ := cut_is_noticed written
  exact ⟨data, written, small, cut, whole small⟩

end Metadata

end SymbolHistory
