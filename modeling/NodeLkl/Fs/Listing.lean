import NodeLkl.Fs.Readdir

/-!
# Listing directories

The kernel gives the entries of a directory a few at a time, each of them encoded as a
`struct linux_dirent64` (`Dirent.encode`). `parseDirent64` finds their names
(`parseDirent64_encodeAll`), and `readdir` lists them all, however they are split, in
order, but for `.` and `..` (`readdir_lists`).
-/

namespace NodeLkl

namespace Fs

open EventLoop (exec idle settle)

/-! ## Entries -/

/-- The `k` bytes of a number, the lowest first. -/
def littleEndian : ℕ → ℕ → Bytes
  | 0, _ => []
  | k + 1, n => UInt8.ofNat n :: littleEndian k (n / 256)

@[simp]
theorem length_littleEndian (k n : ℕ) : (littleEndian k n).length = k := by
  induction k generalizing n with
  | zero => rfl
  | succ k ih => simp [littleEndian, ih]

/-- The length of the encoding of an entry with a name of `n` bytes. -/
def recordLength (n : ℕ) : ℕ := (dName + n + 1 + 7) / 8 * 8

/-- An entry of a directory: a name, which is neither empty nor longer than what is
    allowed, and has no null byte, and what else there is in its encoding. -/
structure Dirent where
  ino : BitVec 64
  off : BitVec 64
  type : UInt8
  name : Bytes
  padding : Bytes
  name_ne_nil : name ≠ []
  null_notMem : 0 ∉ name
  length_name_le : name.length ≤ nameMax
  length_padding : dName + name.length + 1 + padding.length = recordLength name.length

namespace Dirent

/-- `struct linux_dirent64`. -/
def encode (d : Dirent) : Bytes :=
  littleEndian 8 d.ino.toNat ++ littleEndian 8 d.off.toNat ++
    littleEndian 2 (recordLength d.name.length) ++ d.type :: d.name ++ 0 :: d.padding

/-- Whether an entry is listed: it is neither `.` nor `..`. -/
def Listed (d : Dirent) : Prop := d.name ≠ [46] ∧ d.name ≠ [46, 46]

instance : DecidablePred Listed := fun _ => inferInstanceAs (Decidable (_ ∧ _))

variable (d : Dirent)

theorem length_encode : d.encode.length = recordLength d.name.length := by
  have := d.length_padding
  simp only [encode, List.length_append, List.length_cons, length_littleEndian]
  simp only [dName] at this
  omega

theorem recordLength_pos (n : ℕ) : 0 < recordLength n := by
  simp only [recordLength, dName]
  omega

theorem recordLength_lt : recordLength d.name.length < 2 ^ 16 := by
  have := d.length_name_le
  simp only [recordLength, dName, nameMax] at this ⊢
  omega

end Dirent

/-- Entries, one after the other. -/
def encodeAll (ds : List Dirent) : Bytes := ds.flatMap Dirent.encode

/-- The names of the entries listed. -/
def listedNames (ds : List Dirent) : List Bytes := (ds.filter fun d => d.Listed).map Dirent.name

/-! ## Their names -/

theorem uint16_littleEndian {n : ℕ} (hn : n < 2 ^ 16) (bs : Buf) :
    uint16 (ofBytes (littleEndian 2 n) ++ bs) = some n := by
  simp only [littleEndian, ofBytes, List.map_cons, List.map_nil, List.cons_append, List.nil_append,
    uint16, UInt8.toNat_ofNat']
  congr 1
  omega

section Encode

variable (d : Dirent) (bs : Buf)

theorem drop_encode_reclen : (ofBytes d.encode ++ bs).drop dReclen =
    ofBytes (littleEndian 2 (recordLength d.name.length)) ++
      (ofBytes (d.type :: d.name ++ 0 :: d.padding) ++ bs) := by
  have hsplit : ofBytes d.encode ++ bs =
      ofBytes (littleEndian 8 d.ino.toNat ++ littleEndian 8 d.off.toNat) ++
        (ofBytes (littleEndian 2 (recordLength d.name.length)) ++
          (ofBytes (d.type :: d.name ++ 0 :: d.padding) ++ bs)) := by
    simp [Dirent.encode, ofBytes]
  rw [hsplit]
  exact List.drop_left' (by simp [ofBytes, dReclen])

theorem drop_encode_name : (ofBytes d.encode ++ bs).drop dName =
    ofBytes d.name ++ some 0 :: (ofBytes d.padding ++ bs) := by
  have hsplit : ofBytes d.encode ++ bs =
      ofBytes (littleEndian 8 d.ino.toNat ++ littleEndian 8 d.off.toNat ++
        littleEndian 2 (recordLength d.name.length) ++ [d.type]) ++
        (ofBytes d.name ++ some 0 :: (ofBytes d.padding ++ bs)) := by
    simp [Dirent.encode, ofBytes]
  rw [hsplit]
  exact List.drop_left' (by simp [ofBytes, dName])

theorem drop_encode : (ofBytes d.encode ++ bs).drop (recordLength d.name.length) = bs :=
  List.drop_left' (by simp [ofBytes, d.length_encode])

/-- The name of the first of some entries is found, and then those of the others. -/
theorem parseDirent64_encode : parseDirent64 (ofBytes d.encode ++ bs) =
    (parseDirent64 bs).map fun names => if d.Listed then d.name :: names else names := by
  have hlength : (ofBytes d.encode).length = recordLength d.name.length := by
    simp [ofBytes, d.length_encode]
  obtain ⟨n, hn⟩ : ∃ n, recordLength d.name.length = n + 1 :=
    Nat.exists_eq_add_one.2 (Dirent.recordLength_pos _)
  have hne : ofBytes d.encode ++ bs ≠ [] := by
    intro hnil
    rw [List.append_eq_nil_iff] at hnil
    simp [hnil.1, hn] at hlength
  have hreclen : uint16 ((ofBytes d.encode ++ bs).drop dReclen) = some (n + 1) := by
    rw [drop_encode_reclen, uint16_littleEndian d.recordLength_lt, hn]
  have hname : cString ((ofBytes d.encode ++ bs).drop dName) = some d.name := by
    rw [drop_encode_name, cString_append d.null_notMem]
  have htake : d.name.take nameMax = d.name := List.take_of_length_le d.length_name_le
  rw [parseDirent64, dif_neg hne]
  simp only [hreclen, hname, htake]
  rw [← hn, drop_encode]
  congr 1
  funext names
  by_cases hlisted : d.Listed
  · rw [if_pos hlisted, if_neg (not_or.2 hlisted)]
  · rw [if_neg hlisted, if_pos (by simpa [Dirent.Listed, or_iff_not_imp_left] using hlisted)]

end Encode

/-- The names of entries are found. -/
theorem parseDirent64_encodeAll (ds : List Dirent) :
    parseDirent64 (ofBytes (encodeAll ds)) = some (listedNames ds) := by
  induction ds with
  | nil => simp [encodeAll, listedNames, ofBytes, parseDirent64]
  | cons d ds ih =>
    -- the length of the first entry is where the next one starts
    have hsplit : ofBytes (encodeAll (d :: ds)) = ofBytes d.encode ++ ofBytes (encodeAll ds) := by
      simp [encodeAll, ofBytes]
    rw [hsplit, parseDirent64_encode, ih, Option.map_some]
    by_cases hlisted : d.Listed
    · simp [listedNames, hlisted]
    · simp [listedNames, hlisted]

/-! ## Runs of `readdir` -/

/-- Entries that the kernel gives at a time. -/
structure Chunk where
  entries : List Dirent
  ne_nil : entries ≠ []
  length_le : (encodeAll entries).length ≤ bufferSize

/-- The result of `getdents64` that gives them. -/
def Chunk.reply (c : Chunk) : Reply :=
  .ok (encodeAll c.entries).length (encodeAll c.entries) .zero

theorem Chunk.length_pos (c : Chunk) : 0 < (encodeAll c.entries).length := by
  obtain ⟨d, ds, hds⟩ := List.exists_cons_of_ne_nil c.ne_nil
  have hpos := Dirent.recordLength_pos d.name.length
  simp only [hds, encodeAll, List.flatMap_cons, List.length_append, d.length_encode]
  omega

/-- The last result of `getdents64`: there are no more entries, or an error. -/
def lastReply? : Option ℕ → Reply
  | none => .ok 0 [] .zero
  | some n => .error n

/-- A run of `readdir`: the directory is opened, `chunks` are given, and then no more
    entries or the error `last`, and the directory is closed. -/
def listing (fd : ℕ) (chunks : List Chunk) (last : Option ℕ) (closed : Reply) : List Event :=
  .complete (.ok fd [] .zero) :: (chunks.map fun c => .complete c.reply) ++
    [.complete (lastReply? last), .complete closed]

/-- What is to be answered, if `dec` decodes names: the first error there is, or the
    names. -/
def listingAnswer (dec : Bytes → List Char) (encoding : Option Encoding) (names : List Bytes)
    (last : Option ℕ) (closed : Reply) : Args :=
  match last, closed with
  | some n, _ | none, .error n => ⟨some (.errno n), []⟩
  | none, .ok _ _ _ =>
    if encoding = some bufferEncoding then ⟨none, [.buffers names]⟩
    else if ∃ name ∈ names, dec name = [] then ⟨some invalidEncodingError, []⟩
    else ⟨none, [.strings (names.map dec)]⟩

/-- The callback is first given `a`. It is called again only if it throws. -/
def Yields (host : Host) (l : Loop) (a : Args) : Prop :=
  l.answers.head? = some a ∧ (host.throws 0 = none → l.answers = [a])

section Run

variable (host : Host) {path : Path} {arg : OptionsArg} {l : Loop} {fd : ℤ} {buf : Addr}
  {encoding : Option Encoding} {result : List Bytes}

/-- The entries that were read, to `buf`, have the names `result`. -/
def Reads (fd : ℤ) (buf : Addr) (encoding : Option Encoding) (result : List Bytes) (l : Loop) :
    Prop :=
  ∃ s is rs b, s.heap[buf]? = some (.bytes b) ∧
    l = ⟨s, [(.getdents64 fd ⟨buf, 0, bufferSize⟩, .listdir fd buf encoding result)], [], false, is,
      rs, []⟩

/-- The directory is being closed. -/
def Closes (fd : ℤ) (encoding : Option Encoding) (err : Option Err) (result : List Bytes)
    (l : Loop) : Prop :=
  ∃ s is rs, l = ⟨s, [(.close fd, .readdirAfterClose encoding err result)], [], false, is, rs, []⟩

/-- Some entries were given: the buffer is used again, but their names are copied. -/
theorem Reads.chunk (h : Reads fd buf encoding result l) (c : Chunk) :
    (system host).Enabled l (.complete c.reply) ∧
      Reads fd buf encoding (result ++ listedNames c.entries)
        ((system host).next l (.complete c.reply)) := by
  obtain ⟨s, is, rs, b, hb, rfl⟩ := h
  have hparse := parseDirent64_encodeAll c.entries
  refine ⟨⟨rfl, rfl, _, _, _, rfl, rfl, c.length_le, by simp [hparse]⟩, ?_⟩
  have hheap := Mem.heap_fill_self 0 bufferSize (encodeAll c.entries) hb
  have htake : ((s.fill ⟨buf, 0, bufferSize⟩ (encodeAll c.entries)).buf buf).take
      (encodeAll c.entries).length = ofBytes (encodeAll c.entries) := by
    rw [Mem.buf_of_heap hheap, List.take_zero, List.nil_append,
      List.take_left' (by simp [ofBytes])]
  simp only [EventLoop.system, program, Chunk.reply, Reply.args, apply_listdir]
  rw [if_pos c.length_pos]
  simp only [EventLoop.exec_bind, exec_getBuf, Mem.receive, htake, hparse, Option.getD_some]
  exact ⟨_, _, _, _, hheap, rfl⟩

theorem Reads.chunks (chunks : List Chunk) (h : Reads fd buf encoding result l) :
    (system host).IsRun l (chunks.map fun c => .complete c.reply) ∧
      Reads fd buf encoding (result ++ listedNames (chunks.flatMap Chunk.entries))
        ((system host).run l (chunks.map fun c => .complete c.reply)) := by
  induction chunks generalizing result l with
  | nil => exact ⟨trivial, by simpa [listedNames, System.run] using h⟩
  | cons c chunks ih =>
    obtain ⟨henabled, hnext⟩ := h.chunk host c
    obtain ⟨hrun, hreads⟩ := ih hnext
    refine ⟨⟨henabled, hrun⟩, ?_⟩
    simpa [listedNames, System.run] using hreads

/-- There are no more entries, or there was an error: the directory is closed. -/
theorem Reads.last (h : Reads fd buf encoding result l) (last : Option ℕ) :
    (system host).Enabled l (.complete (lastReply? last)) ∧
      ∃ result', (last = none → result' = result) ∧
        Closes fd encoding (last.map .errno) result'
          ((system host).next l (.complete (lastReply? last))) := by
  obtain ⟨s, is, rs, b, hb, rfl⟩ := h
  have hnil : parseDirent64 (ofBytes []) = some [] := by simp [ofBytes, parseDirent64]
  cases last with
  | none =>
    refine ⟨⟨rfl, rfl, _, _, _, rfl, rfl, Nat.zero_le _, by simp [hnil]⟩, result, fun _ => rfl, ?_⟩
    simp only [EventLoop.system, program, lastReply?, Reply.args, apply_listdir]
    exact ⟨_, _, _, rfl⟩
  | some n =>
    refine ⟨⟨rfl, rfl, _, _, _, rfl, trivial⟩, [], by simp, ?_⟩
    simp only [EventLoop.system, program, lastReply?, apply]
    exact ⟨_, _, _, rfl⟩

/-- The directory was closed. -/
theorem Closes.yields {err : Option Err} (h : Closes fd encoding err result l) (closed : Reply) :
    (system host).Enabled l (.complete closed) ∧
      ((system host).next l (.complete closed)).Inert ∧
      Yields host ((system host).next l (.complete closed))
        (match err.or closed.args.err with
          | some e => ⟨some e, []⟩
          | none => match decodeArray host result encoding with
            | .ok names => ⟨none, [names]⟩
            | .error e => ⟨some e, []⟩) := by
  obtain ⟨s, is, rs, rfl⟩ := h
  refine ⟨⟨rfl, rfl, _, _, _, rfl, by cases closed <;> trivial⟩, ?_⟩
  have hone : ∀ (m : Mem) (log : Log) (a : Args),
      (settle (exec (callback host a) (idle [] m is log))).Inert ∧
        Yields host (settle (exec (callback host a) (idle [] m is log))) a := by
    intro m log a
    rw [EventLoop.inert_settle, Yields, EventLoop.settle_answers, callback, EventLoop.exec_answer]
    exact ⟨⟨rfl, rfl⟩, rfl, fun _ => rfl⟩
  have herr : (err <|> closed.args.err) = err.or closed.args.err := by cases err <;> rfl
  simp only [EventLoop.system, program, apply, herr]
  cases err.or closed.args.err with
  | some e => exact hone _ _ _
  | none =>
    simp only [EventLoop.exec_tryCatch, EventLoop.exec_bind, exec_ofExcept]
    cases decodeArray host result encoding with
    | error e => exact hone _ _ _
    | ok names =>
      simp only [callback, EventLoop.exec_answer, List.length_nil]
      cases hthrows : host.throws 0 with
      | none => exact ⟨⟨rfl, rfl⟩, rfl, fun _ => rfl⟩
      | some e =>
        -- the callback threw, and is given what it threw
        rw [EventLoop.inert_settle, Yields, EventLoop.settle_answers, hthrows]
        exact ⟨⟨rfl, rfl⟩, rfl, by simp⟩

end Run

section Decode

variable {host : Host} {dec : Bytes → List Char} {encoding : Option Encoding}

theorem decodeArray_buffer (names : List Bytes) :
    decodeArray host names (some bufferEncoding) = .ok (.buffers names) := by
  simp [decodeArray]

/-- The names are decoded one by one, unless one of them gives an empty string. -/
theorem decodeArray_of_decodes {names : List Bytes} (h : encoding ≠ some bufferEncoding)
    (hdec : ∀ name ∈ names, host.bufferToString encoding (ofBytes name) = .ok (dec name)) :
    decodeArray host names encoding =
      if ∃ name ∈ names, dec name = [] then .error invalidEncodingError
      else .ok (.strings (names.map dec)) := by
  have hmapM : (names.mapM fun name => do
      let s ← host.bufferToString encoding (ofBytes name)
      if s.length = 0 then throw invalidEncodingError
      return s) = if ∃ name ∈ names, dec name = [] then .error invalidEncodingError
        else .ok (names.map dec) := by
    -- The error is the same whichever name it is for, so that the order does not matter.
    induction names with
    | nil => simp; rfl
    | cons name names ih =>
      rw [List.forall_mem_cons] at hdec
      rw [List.mapM_cons, ih hdec.2, hdec.1]
      by_cases hname : dec name = []
      · rw [if_pos (⟨name, List.mem_cons_self, hname⟩ : ∃ x ∈ name :: names, dec x = [])]
        simp only [hname]
        rfl
      · have hiff : (∃ x ∈ name :: names, dec x = []) ↔ ∃ x ∈ names, dec x = [] := by
          simp [hname]
        have hlength : ¬(dec name).length = 0 := by simpa using hname
        simp only [hiff, List.map_cons]
        by_cases hnames : ∃ x ∈ names, dec x = []
        · rw [if_pos hnames, if_pos hnames]
          simp only [bind, Except.bind, hlength, if_false]
          rfl
        · rw [if_neg hnames, if_neg hnames]
          simp only [bind, Except.bind, hlength, if_false]
          rfl
  rw [decodeArray, if_neg h, hmapM]
  split <;> rfl

theorem length_le_of_mem_listedNames {ds : List Dirent} {name : Bytes}
    (h : name ∈ listedNames ds) : name.length ≤ nameMax := by
  obtain ⟨d, -, rfl⟩ := List.mem_map.1 h
  exact d.length_name_le

theorem answer_eq_listingAnswer {ds : List Dirent} {last : Option ℕ} {result : List Bytes}
    (hresult : last = none → result = listedNames ds)
    (hdec : encoding ≠ some bufferEncoding → ∀ name : Bytes, name.length ≤ nameMax →
      host.bufferToString encoding (ofBytes name) = .ok (dec name)) (closed : Reply) :
    (match (last.map Err.errno).or closed.args.err with
      | some e => ⟨some e, []⟩
      | none => match decodeArray host result encoding with
        | .ok names => ⟨none, [names]⟩
        | .error e => ⟨some e, []⟩ : Args) =
      listingAnswer dec encoding (listedNames ds) last closed := by
  cases last with
  | some n => rfl
  | none => cases closed with
    | error n => rfl
    | ok ret data st =>
      rw [hresult rfl]
      by_cases hbuffer : encoding = some bufferEncoding
      · rw [hbuffer]
        simp [listingAnswer, decodeArray_buffer, Reply.args]
      · have hnames : ∀ name ∈ listedNames ds,
            host.bufferToString encoding (ofBytes name) = .ok (dec name) :=
          fun name hname => hdec hbuffer name (length_le_of_mem_listedNames hname)
        rw [decodeArray_of_decodes hbuffer hnames]
        by_cases hempty : ∃ name ∈ listedNames ds, dec name = []
        · simp [listingAnswer, hbuffer, hempty, Reply.args]
        · simp [listingAnswer, hbuffer, hempty, Reply.args]

end Decode

section Main

variable {host : Host} {path : Path} {arg : OptionsArg}

/-- The directory was opened. -/
theorem reads_open (hc : (Call.readdir path arg).Accepted host)
    (hp : (Call.readdir path arg).pathError = none) (fd : ℕ) :
    (system host).Enabled ((Call.readdir path arg).start host).2 (.complete (.ok fd [] .zero)) ∧
      ∃ buf, Reads fd buf (arg.encoding none) []
        ((system host).next ((Call.readdir path arg).start host).2
          (.complete (.ok fd [] .zero))) := by
  have hnull : path.hasNull = false := by
    cases hnull : path.hasNull with
    | false => rfl
    | true => simp [Call.pathError, Path.nullError, hnull] at hp
  rw [start_readdir hc, nullCheck, hnull, if_neg Bool.false_ne_true]
  have htype : path.typeError = none := by
    simpa [Call.pathError, Path.nullError, hnull] using hp
  cases path with
  | string _ | buffer _ =>
    refine ⟨⟨rfl, rfl, _, _, _, rfl, trivial⟩, 0, ?_⟩
    simp only [EventLoop.system, program, Binding.readdir, Binding.addNullTerminationIfNeeded,
      EventLoop.exec_issue, idle, List.nil_append, apply]
    exact ⟨_, _, _, List.replicate bufferSize none, rfl, rfl⟩
  | number _ | other _ => simp [Path.typeError] at htype

/-- However the entries of a directory are split, `readdir` lists them; if there is an error,
    it answers with it. -/
theorem readdir_lists (hc : (Call.readdir path arg).Accepted host)
    (hp : (Call.readdir path arg).pathError = none) {dec : Bytes → List Char}
    (hdec : arg.encoding none ≠ some bufferEncoding → ∀ name : Bytes, name.length ≤ nameMax →
      host.bufferToString (arg.encoding none) (ofBytes name) = .ok (dec name))
    (fd : ℕ) (chunks : List Chunk) (last : Option ℕ) (closed : Reply) :
    (system host).IsRun ((Call.readdir path arg).start host).2 (listing fd chunks last closed) ∧
      (system host).Halted ((system host).run ((Call.readdir path arg).start host).2
        (listing fd chunks last closed)) ∧
      Yields host ((system host).run ((Call.readdir path arg).start host).2
          (listing fd chunks last closed))
        (listingAnswer dec (arg.encoding none) (listedNames (chunks.flatMap Chunk.entries)) last
          closed) := by
  obtain ⟨hopen, buf, hreads⟩ := reads_open hc hp fd
  obtain ⟨hrun, hchunks⟩ := hreads.chunks host chunks
  obtain ⟨hlast, result, hresult, hcloses⟩ := hchunks.last host last
  obtain ⟨hclosed, hinert, hyields⟩ := hcloses.yields host closed
  have hend : (system host).run ((Call.readdir path arg).start host).2
      (listing fd chunks last closed) = (system host).next ((system host).next
        ((system host).run ((system host).next ((Call.readdir path arg).start host).2
          (.complete (.ok fd [] .zero))) (chunks.map fun c => .complete c.reply))
        (.complete (lastReply? last))) (.complete closed) := by
    simp [System.run, listing]
  refine ⟨⟨hopen, System.isRun_append.2 ⟨hrun, hlast, hclosed, trivial⟩⟩, ?_, ?_⟩
  · rw [hend]
    exact hinert.not_enabled
  · rw [hend, ← answer_eq_listingAnswer hresult hdec closed]
    exact hyields

/-- A host decoding bytes as the characters with their numbers. -/
def asciiHost : Host where
  kMaxLength := 0x3fffffff
  isEncoding _ := true
  bufferToString _ b := .ok (b.map fun x => Char.ofNat (x.getD 0).toNat)
  bufferFrom _ _ := .ok []
  throws _ := none

/-- The entries `.` and `ab`, and then `c` and `..`. -/
def twoChunks : List Chunk :=
  [⟨[⟨1, 0, 4, [46], [7, 7, 7], by decide, by decide, by decide, rfl⟩,
      ⟨2, 1, 8, [97, 98], [0, 0], by decide, by decide, by decide, rfl⟩], by simp, by decide⟩,
    ⟨[⟨3, 2, 8, [99], [1, 2, 3], by decide, by decide, by decide, rfl⟩,
      ⟨4, 3, 4, [46, 46], [0, 0], by decide, by decide, by decide, rfl⟩], by simp, by decide⟩]

theorem readdir_lists_twoChunks :
    (system asciiHost).IsRun ((Call.readdir (.string ['d']) .missing).start asciiHost).2
        (listing 3 twoChunks none (.ok 0 [] .zero)) ∧
      ((system asciiHost).run ((Call.readdir (.string ['d']) .missing).start asciiHost).2
        (listing 3 twoChunks none (.ok 0 [] .zero))).answers =
          [⟨none, [.strings [['a', 'b'], ['c']]]⟩] := by
  have hc : (Call.readdir (.string ['d']) .missing).Accepted asciiHost := by
    intro e he
    cases he
  have hdec : (OptionsArg.missing.encoding none) ≠ some bufferEncoding → ∀ name : Bytes,
      name.length ≤ nameMax → asciiHost.bufferToString (OptionsArg.missing.encoding none)
        (ofBytes name) = .ok (name.map fun x => Char.ofNat x.toNat) := by
    intro _ name _
    simp [asciiHost, ofBytes, Function.comp_def]
  obtain ⟨hrun, -, -, hyields⟩ := readdir_lists hc rfl hdec 3 twoChunks none (.ok 0 [] .zero)
  refine ⟨hrun, (hyields rfl).trans ?_⟩
  decide

end Main

end Fs

end NodeLkl
