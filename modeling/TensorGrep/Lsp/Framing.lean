import TensorGrep.Kernel.Json

/-!
# Messages on the stream of a language server

A message is a text behind a header that gives its length.  The reader takes lines up to an empty
one, keeps within limits for a line, for the lines together and for their number, and then takes as
many bytes as the header says.

What is written is read back, and a stream that breaks off anywhere gives the messages that are
whole (`readMessages_frames`); a reader takes a bounded piece of whatever comes
(`readMessage_consumes`).
-/

namespace TensorGrep
namespace Lsp

open Kernel

universe u

/-! ## Numbers -/

/-- The value of a digit. -/
def digitValue (c : CodePoint) : Option ℕ :=
  if 48 ≤ c.val ∧ c.val ≤ 57 then some (c.val - 48) else none

/-- The digits behind the first one; a single `_` may stand between two of them. -/
@[grind] def readDigits : Bool → ℕ → CodePoints → Option ℕ
  | marked, value, [] => if marked then none else some value
  | marked, value, c :: rest =>
      if c.val = 95 ∧ marked = false then readDigits true value rest
      else (digitValue c).bind fun n => readDigits false (10 * value + n) rest

/-- The digits of a number without a sign. -/
def readNumber : CodePoints → Option ℕ
  | [] => none
  | c :: rest => (digitValue c).bind fun n => readDigits false n rest

/-- `int(text)` of characters that are ASCII or the replacement character. -/
def parseInt (text : CodePoints) : Option ℤ :=
  match stripCodes text with
  | [] => none
  | c :: rest =>
      if c.val = 43 then (readNumber rest).map Int.ofNat
      else if c.val = 45 then (readNumber rest).map fun n => -(n : ℤ)
      else (readNumber (c :: rest)).map Int.ofNat

/-! ## Headers -/

/-- `_MAX_LSP_MESSAGE_BYTES`. -/
def maxMessageBytes : ℕ :=
  67108864

/-- `_MAX_LSP_HEADER_LINES`. -/
def maxHeaderLines : ℕ :=
  128

/-- `_MAX_LSP_HEADER_BYTES`. -/
def maxHeaderBytes : ℕ :=
  65536

/-- `stream.readline(limit)`, and what is left of the stream. -/
@[grind] def readLine : ℕ → Bytes → Bytes × Bytes
  | 0, stream => ([], stream)
  | _ + 1, [] => ([], [])
  | limit + 1, b :: stream =>
      if b = 10 then ([b], stream)
      else (b :: (readLine limit stream).1, (readLine limit stream).2)

/-- `line.decode("ascii", errors="replace")`. -/
def decodeAscii (line : Bytes) : CodePoints :=
  line.map fun b => if b < 128 then Fin.ofNat 0x110000 b.toNat else 0xFFFD

/-- `str.lower` of characters that are ASCII or the replacement character. -/
def lowerCode (c : CodePoint) : CodePoint :=
  if 65 ≤ c.val ∧ c.val ≤ 90 then Fin.ofNat 0x110000 (c.val + 32) else c

/-- The key and the value of a header line. -/
def headerOf (line : Bytes) : Option (CodePoints × CodePoints) :=
  let text := decodeAscii line
  if (58 : CodePoint) ∈ text then
    some ((stripCodes (text.takeWhile fun c => c ≠ 58)).map lowerCode,
      stripCodes ((text.dropWhile fun c => c ≠ 58).drop 1))
  else none

/-- The headers of a message, the last one first. -/
abbrev Headers := List (CodePoints × CodePoints)

/-- The line ends with a line feed. -/
def endsLine (line : Bytes) : Bool :=
  line.getLast? = some 10

/-- The lines up to an empty one: the headers, if the limits are kept, and what is left. -/
@[grind] def readHeaders : ℕ → Headers → ℕ → Bytes → Option Headers × Bytes
  | 0, _, _, stream => (none, stream)
  | lines + 1, headers, total, stream =>
      let line := (readLine maxHeaderBytes stream).1
      let rest := (readLine maxHeaderBytes stream).2
      if line = [] then (none, rest)
      else if maxHeaderBytes ≤ line.length ∧ endsLine line = false then (none, rest)
      else if maxHeaderBytes < total + line.length then (none, rest)
      else if line = [13, 10] ∨ line = [10] then (some headers, rest)
      else readHeaders lines ((headerOf line).toList ++ headers) (total + line.length) rest

/-- `headers.get("content-length", "0")`. -/
def contentLengthText (headers : Headers) : CodePoints :=
  ((headers.find? fun header => header.1 = codePoints "content-length").map Prod.snd).getD
    (codePoints "0")

/-! ## Messages -/

/-- What `json.loads` makes of a body: an object, another value, or an exception. -/
inductive Parsed (μ : Type u) where
  | object (message : μ)
  | other
  | raised

/-- What a reader gets: a message, `None`, or an exception. -/
inductive ReadOutcome (μ : Type u) where
  | message (message : μ)
  | closed
  | raised

variable {μ : Type u} (parse : Bytes → Parsed μ)

/-- The body of a message, and what is left of the stream. -/
def readBody
    (contentLength : ℕ)
    (stream : Bytes) : ReadOutcome μ × Bytes :=
  let body := stream.take contentLength
  let rest := stream.drop contentLength
  if body = [] then (.closed, rest)
  else
    match parse body with
    | .object message => (.message message, rest)
    | .other => (.closed, rest)
    | .raised => (.raised, rest)

/-- `_read_message`, and what is left of the stream. -/
def readMessage (stream : Bytes) : ReadOutcome μ × Bytes :=
  match readHeaders maxHeaderLines [] 0 stream with
  | (none, rest) => (.closed, rest)
  | (some headers, rest) =>
      match parseInt (contentLengthText headers) with
      | none => (.closed, rest)
      | some contentLength =>
          if contentLength ≤ 0 ∨ (maxMessageBytes : ℤ) < contentLength then (.closed, rest)
          else readBody parse contentLength.toNat rest

/-- The messages that `_reader_loop` gets, of at most `fuel` ones. -/
@[grind] def readMessages : ℕ → Bytes → List μ
  | 0, _ => []
  | fuel + 1, stream =>
      match readMessage parse stream with
      | (.message message, rest) => message :: readMessages fuel rest
      | (_, _) => []

/-- The header that `_write_message` writes. -/
def frameHeader (length : ℕ) : Bytes :=
  asciiBytes "Content-Length: " ++ Json.decimal length ++ [13, 10]

/-- What `_write_message` writes of a body. -/
def frame (body : Bytes) : Bytes :=
  frameHeader body.length ++ [13, 10] ++ body

/-! ## Lines -/

section Lines

/-- A line is taken from the front of a stream. -/
theorem readLine_append
    (limit : ℕ)
    (stream : Bytes) :
    (readLine limit stream).1 ++ (readLine limit stream).2 = stream := by
  induction limit generalizing stream with
  | zero => rfl
  | succ limit ih =>
      cases stream with
      | nil => rfl
      | cons b stream =>
          rw [readLine]
          split_ifs with hb
          · rfl
          · exact congrArg (List.cons b) (ih stream)

/-- A line keeps the limit. -/
theorem length_readLine_le
    (limit : ℕ)
    (stream : Bytes) :
    (readLine limit stream).1.length ≤ limit := by
  induction limit generalizing stream with
  | zero => exact le_rfl
  | succ limit ih =>
      cases stream with
      | nil => exact Nat.zero_le _
      | cons b stream =>
          rw [readLine]
          split_ifs with hb
          · exact Nat.le_add_left 1 limit
          · exact Nat.succ_le_succ (ih stream)

/-- A line ends at its line feed. -/
theorem readLine_of_lineFeed
    {limit : ℕ}
    {line rest : Bytes}
    (hline : 10 ∉ line)
    (hlimit : line.length < limit) :
    readLine limit (line ++ 10 :: rest) = (line ++ [10], rest) := by
  induction line generalizing limit with
  | nil =>
      obtain ⟨limit, rfl⟩ := Nat.exists_eq_add_one_of_ne_zero (Nat.ne_zero_of_lt hlimit)
      rfl
  | cons b line ih =>
      obtain ⟨limit, rfl⟩ := Nat.exists_eq_add_one_of_ne_zero (Nat.ne_zero_of_lt hlimit)
      rw [List.mem_cons, not_or] at hline
      rw [List.cons_append, readLine, if_neg (Ne.symm hline.1),
        ih hline.2 (Nat.lt_of_succ_lt_succ hlimit)]
      rfl

end Lines

/-! ## Numbers are read back -/

section Numbers

/-- The code point of a digit. -/
def codeOf (c : Char) : CodePoint :=
  Fin.ofNat 0x110000 c.toNat

theorem val_codeOf
    {c : Char}
    (hc : c.isDigit) :
    (codeOf c).val = c.toNat ∧ 48 ≤ c.toNat ∧ c.toNat ≤ 57 := by
  have hrange : 48 ≤ c.toNat ∧ c.toNat ≤ 57 := by
    rw [Char.isDigit, Bool.and_eq_true, decide_eq_true_iff, decide_eq_true_iff] at hc
    exact ⟨UInt32.le_iff_toNat_le.mp hc.1, UInt32.le_iff_toNat_le.mp hc.2⟩
  refine ⟨?_, hrange⟩
  rw [codeOf, Fin.val_ofNat]
  exact Nat.mod_eq_of_lt (by omega)

theorem readDigits_codes
    {digits : List Char}
    (hdigits : ∀ c ∈ digits, c.isDigit)
    (value : ℕ) :
    readDigits false value (digits.map codeOf) = some (Nat.ofDigitChars 10 digits value) := by
  induction digits generalizing value with
  | nil => rfl
  | cons c digits ih =>
      rw [List.forall_mem_cons] at hdigits
      obtain ⟨hval, hlow, hhigh⟩ := val_codeOf hdigits.1
      have hmark : ¬ ((codeOf c).val = 95 ∧ false = false) := by omega
      have hdigit : digitValue (codeOf c) = some (c.toNat - 48) := by
        rw [digitValue, hval, if_pos ⟨hlow, hhigh⟩]
      rw [List.map_cons, readDigits, if_neg hmark, hdigit, Option.bind_some, ih hdigits.2,
        Nat.ofDigitChars_cons]
      rfl

theorem isSpaceCode_codeOf
    {c : Char}
    (hc : c.isDigit) :
    isSpaceCode (codeOf c) = false := by
  obtain ⟨hval, hlow, hhigh⟩ := val_codeOf hc
  simp only [isSpaceCode, hval, Bool.or_eq_false_iff, Bool.and_eq_false_iff, decide_eq_false_iff_not,
    beq_eq_false_iff_ne]
  omega

/-- White space around a text is stripped. -/
theorem stripCodes_surrounded
    {before text behind : CodePoints}
    (hbefore : ∀ c ∈ before, isSpaceCode c = true)
    (htext : ∀ c ∈ text, isSpaceCode c = false)
    (hbehind : ∀ c ∈ behind, isSpaceCode c = true)
    (hne : text ≠ []) :
    stripCodes (before ++ text ++ behind) = text := by
  have hfirst : (text ++ behind).dropWhile isSpaceCode = text ++ behind := by
    obtain ⟨c, rest, rfl⟩ := List.exists_cons_of_ne_nil hne
    rw [List.cons_append, List.dropWhile_cons_of_neg]
    rw [htext c List.mem_cons_self]
    exact Bool.false_ne_true
  have hlast : text.reverse.dropWhile isSpaceCode = text.reverse := by
    obtain ⟨c, rest, hreverse⟩ := List.exists_cons_of_ne_nil (List.reverse_ne_nil_iff.mpr hne)
    have hmem : c ∈ text := List.mem_reverse.mp (hreverse ▸ List.mem_cons_self)
    rw [hreverse, List.dropWhile_cons_of_neg]
    rw [htext c hmem]
    exact Bool.false_ne_true
  rw [stripCodes, List.append_assoc, List.dropWhile_append_of_pos hbefore, hfirst,
    List.reverse_append, List.dropWhile_append_of_pos fun c hc =>
      hbehind c (List.mem_reverse.mp hc), hlast, List.reverse_reverse]

/-- The code points of the decimal digits of a number. -/
def digitCodes (n : ℕ) : CodePoints :=
  (Nat.toDigits 10 n).map codeOf

theorem isDigit_of_mem_digits
    {n : ℕ} :
    ∀ c ∈ Nat.toDigits 10 n, c.isDigit :=
  fun _ hc => Nat.isDigit_of_mem_toDigits (by decide) (by decide) hc

theorem digitCodes_ne_nil
    (n : ℕ) :
    digitCodes n ≠ [] := by
  rw [digitCodes, Ne, List.map_eq_nil_iff]
  exact Nat.toDigits_ne_nil

theorem isSpaceCode_of_mem_digitCodes
    {n : ℕ} :
    ∀ c ∈ digitCodes n, isSpaceCode c = false := by
  intro c hc
  obtain ⟨d, hd, rfl⟩ := List.mem_map.mp hc
  exact isSpaceCode_codeOf (isDigit_of_mem_digits d hd)

/-- A number is read back from its decimal digits. -/
theorem parseInt_digitCodes
    (n : ℕ) :
    parseInt (digitCodes n) = some (n : ℤ) := by
  obtain ⟨c, digits, hdigits⟩ := List.exists_cons_of_ne_nil (@Nat.toDigits_ne_nil n 10)
  have hall := @isDigit_of_mem_digits n
  rw [hdigits, List.forall_mem_cons] at hall
  obtain ⟨hval, hlow, hhigh⟩ := val_codeOf hall.1
  have hdigit : digitValue (codeOf c) = some (c.toNat - 48) := by
    rw [digitValue, hval, if_pos ⟨hlow, hhigh⟩]
  have hvalue := @Nat.ofDigitChars_ten_toDigits n
  rw [hdigits, Nat.ofDigitChars_cons] at hvalue
  have hplus : (codeOf c).val ≠ 43 := by omega
  have hminus : (codeOf c).val ≠ 45 := by omega
  rw [parseInt, stripCodes_eq_self isSpaceCode_of_mem_digitCodes, digitCodes, hdigits,
    List.map_cons]
  simp only [if_neg hplus, if_neg hminus]
  rw [readNumber, hdigit, Option.bind_some, readDigits_codes hall.2]
  simpa using hvalue

/-- The decimal digits as bytes are their code points. -/
theorem decodeAscii_decimal
    (n : ℕ) :
    decodeAscii (Json.decimal n) = digitCodes n := by
  rw [decodeAscii, Json.decimal, digitCodes, List.map_map]
  refine List.map_congr_left fun c hc => ?_
  obtain ⟨hval, hlow, hhigh⟩ := val_codeOf (isDigit_of_mem_digits c hc)
  have hbyte : (UInt8.ofNat c.toNat).toNat = c.toNat :=
    UInt8.toNat_ofNat_of_lt' (by rw [UInt8.size]; omega)
  have hascii : UInt8.ofNat c.toNat < 128 := by
    rw [UInt8.lt_iff_toNat_lt, hbyte]
    exact Nat.lt_of_le_of_lt hhigh (by decide)
  rw [Function.comp_apply, if_pos hascii, hbyte, codeOf]

end Numbers

/-! ## Frames are read back -/

section Frames

theorem ten_not_mem_decimal
    (n : ℕ) :
    10 ∉ Json.decimal n := by
  rw [Json.decimal, List.mem_map]
  rintro ⟨c, hc, heq⟩
  obtain ⟨-, hlow, hhigh⟩ := val_codeOf (isDigit_of_mem_digits c hc)
  have hnat := congrArg UInt8.toNat heq
  rw [UInt8.toNat_ofNat_of_lt' (by rw [UInt8.size]; omega)] at hnat
  have hten : (10 : UInt8).toNat = 10 := rfl
  omega

theorem length_decimal_le
    {n : ℕ}
    (h : n ≤ maxMessageBytes) :
    (Json.decimal n).length ≤ 8 := by
  rw [Json.decimal, List.length_map, Nat.length_toDigits_le_iff (by decide) (by decide)]
  exact lt_of_le_of_lt h (by decide)

/-- The header without its line feed. -/
def headerStart (length : ℕ) : Bytes :=
  asciiBytes "Content-Length: " ++ Json.decimal length ++ [13]

theorem frameHeader_eq
    (length : ℕ) :
    frameHeader length = headerStart length ++ [10] := by
  rw [frameHeader, headerStart, List.append_assoc _ [13] [10]]
  rfl

theorem ten_not_mem_headerStart
    (length : ℕ) :
    10 ∉ headerStart length := by
  rw [headerStart, List.mem_append, List.mem_append]
  rintro ((h | h) | h)
  · exact absurd h (by decide)
  · exact ten_not_mem_decimal length h
  · exact absurd h (by decide)

theorem length_headerStart_le
    {n : ℕ}
    (h : n ≤ maxMessageBytes) :
    (headerStart n).length ≤ 25 := by
  have hdecimal := length_decimal_le h
  have hname : (asciiBytes "Content-Length: ").length = 16 := rfl
  simp only [headerStart, List.length_append, hname, List.length_cons, List.length_nil]
  omega

/-- The header of a frame gives the length. -/
theorem headerOf_frameHeader
    (n : ℕ) :
    headerOf (frameHeader n) = some (codePoints "content-length", digitCodes n) := by
  have htext : decodeAscii (frameHeader n) =
      codePoints "Content-Length" ++ 58 :: ([32] ++ digitCodes n ++ [13, 10]) := by
    have hname : decodeAscii (asciiBytes "Content-Length: ") =
        codePoints "Content-Length" ++ [58, 32] := by
      decide
    have hend : decodeAscii [13, 10] = [13, 10] := by
      decide
    rw [frameHeader, decodeAscii, List.map_append, List.map_append]
    change decodeAscii _ ++ decodeAscii _ ++ decodeAscii _ = _
    rw [hname, hend, decodeAscii_decimal]
    simp
  have hname : ∀ c ∈ codePoints "Content-Length", decide (c ≠ 58) = true :=
    List.all_eq_true.mp (by decide)
  have hvalue : stripCodes ([32] ++ digitCodes n ++ [13, 10]) = digitCodes n :=
    stripCodes_surrounded (List.all_eq_true.mp (by decide)) isSpaceCode_of_mem_digitCodes
      (List.all_eq_true.mp (by decide)) (digitCodes_ne_nil n)
  rw [headerOf, htext, if_pos (by simp), List.takeWhile_append_of_pos hname,
    List.dropWhile_append_of_pos hname, List.takeWhile_cons_of_neg (by decide),
    List.dropWhile_cons_of_neg (by decide), List.append_nil, List.drop_succ_cons, List.drop_zero,
    hvalue]
  have hkey : (stripCodes (codePoints "Content-Length")).map lowerCode =
      codePoints "content-length" := by
    decide
  rw [hkey]

/-- Headers are only read up to a line feed. -/
theorem lineFeed_mem_of_readHeaders
    {lines : ℕ} :
    ∀ {headers : Headers} {total : ℕ} {stream : Bytes} {found : Headers},
      (readHeaders lines headers total stream).1 = some found → 10 ∈ stream := by
  induction lines with
  | zero => exact fun h => nomatch h
  | succ lines ih =>
      intro headers total stream found h
      have happend := readLine_append maxHeaderBytes stream
      rw [readHeaders] at h
      split_ifs at h with hnil hlong htotal hblank
      · have hmem : 10 ∈ (readLine maxHeaderBytes stream).1 := by
          rcases hblank with hblank | hblank <;> rw [hblank] <;> decide
        exact happend ▸ List.mem_append_left _ hmem
      · exact happend ▸ List.mem_append_right _ (ih h)

/-- The first line of a frame is its header. -/
theorem readHeaders_header
    {lines n : ℕ}
    (h : n ≤ maxMessageBytes)
    (rest : Bytes) :
    readHeaders (lines + 1) [] 0 (frameHeader n ++ rest) =
      readHeaders lines [(codePoints "content-length", digitCodes n)] (frameHeader n).length
        rest := by
  have hlength := length_headerStart_le h
  have hbytes : maxHeaderBytes = 65536 := rfl
  have hheader : (frameHeader n).length = (headerStart n).length + 1 := by
    rw [frameHeader_eq, List.length_append]
    rfl
  have hline : readLine maxHeaderBytes (frameHeader n ++ rest) = (frameHeader n, rest) := by
    rw [frameHeader_eq, List.append_assoc, List.singleton_append]
    exact readLine_of_lineFeed (ten_not_mem_headerStart n) (by omega)
  have hfirst : ∃ later, frameHeader n = 67 :: later := ⟨_, rfl⟩
  obtain ⟨later, hlater⟩ := hfirst
  have hblank : ¬ (frameHeader n = [13, 10] ∨ frameHeader n = [10]) := by
    rw [hlater]
    rintro (hblank | hblank)
    · exact absurd (List.cons.inj hblank).1 (by decide)
    · exact absurd (List.cons.inj hblank).1 (by decide)
  rw [readHeaders, hline]
  simp only
  rw [if_neg (by rw [hlater]; exact List.cons_ne_nil _ _), if_neg (by omega), if_neg (by omega),
    if_neg hblank, headerOf_frameHeader, Nat.zero_add]
  rfl

/-- The header of a frame is read. -/
theorem readHeaders_frame
    {lines n : ℕ}
    (h : n ≤ maxMessageBytes)
    (rest : Bytes) :
    readHeaders (lines + 2) [] 0 (frameHeader n ++ [13, 10] ++ rest) =
      (some [(codePoints "content-length", digitCodes n)], rest) := by
  have hlength := length_headerStart_le h
  have hbytes : maxHeaderBytes = 65536 := rfl
  have hheader : (frameHeader n).length = (headerStart n).length + 1 := by
    rw [frameHeader_eq, List.length_append]
    rfl
  have hline : readLine maxHeaderBytes ([13, 10] ++ rest) = ([13, 10], rest) :=
    @readLine_of_lineFeed maxHeaderBytes [13] rest (by decide) (by rw [hbytes]; decide)
  rw [List.append_assoc, readHeaders_header h, readHeaders, hline]
  simp only
  rw [if_neg (by decide), if_neg (by rw [hbytes]; decide),
    if_neg (by rw [List.length_cons, List.length_cons, List.length_nil]; omega), if_pos (by simp)]

/-- Where a stream of two parts breaks off. -/
theorem prefix_append_cases
    {cut first second : Bytes}
    (h : cut <+: first ++ second) :
    cut <+: first ∨ ∃ part, cut = first ++ part ∧ part <+: second := by
  rcases List.prefix_or_prefix_of_prefix h (List.prefix_append first second) with hcut | ⟨part, rfl⟩
  · exact Or.inl hcut
  · exact Or.inr ⟨part, rfl, (List.prefix_append_right_inj first).mp h⟩

/-- A stream that breaks off in the header of a frame has no headers. -/
theorem readHeaders_cut
    {lines n : ℕ}
    (h : n ≤ maxMessageBytes)
    {cut : Bytes}
    (hcut : cut <+: frameHeader n ++ [13, 10])
    (hne : cut ≠ frameHeader n ++ [13, 10]) :
    (readHeaders (lines + 1) [] 0 cut).1 = none := by
  rw [Option.eq_none_iff_forall_not_mem]
  intro found hfound
  rw [frameHeader_eq, List.append_assoc] at hcut
  rcases prefix_append_cases hcut with hstart | ⟨part, rfl, hpart⟩
  · exact ten_not_mem_headerStart n (hstart.subset (lineFeed_mem_of_readHeaders hfound))
  cases part with
  | nil =>
      have hmem := lineFeed_mem_of_readHeaders hfound
      rw [List.append_nil] at hmem
      exact ten_not_mem_headerStart n hmem
  | cons b part =>
      obtain ⟨rfl, hempty⟩ := List.cons_prefix_cons.mp hpart
      have hheader : headerStart n ++ 10 :: part = frameHeader n ++ part := by
        rw [frameHeader_eq, List.append_assoc]
        rfl
      rw [hheader] at hfound hne
      rw [readHeaders_header h] at hfound
      have hmem := lineFeed_mem_of_readHeaders hfound
      -- a line feed in the rest means that the rest is the whole empty line
      have hwhole : part = [13, 10] := by
        rcases List.prefix_cons_iff.mp hempty with rfl | ⟨second, rfl, hsecond⟩
        · cases hmem
        · rcases List.prefix_cons_iff.mp hsecond with rfl | ⟨third, rfl, hthird⟩
          · exact absurd hmem (by decide)
          · rw [List.prefix_nil.mp hthird]
      exact hne (by rw [hwhole])

end Frames

/-! ## Streams of messages -/

/-- A format of messages: a written object is read back, and no part of its text is an object. -/
structure MessageFormat (μ : Type u) where
  dumps : μ → Bytes
  parse : Bytes → Parsed μ
  parse_dumps : ∀ message, parse (dumps message) = .object message
  parse_cut : ∀ message cut, cut <+: dumps message → cut ≠ dumps message →
    ∀ other, parse cut ≠ .object other

/-- The messages whose frames are whole in the first bytes of a stream. -/
@[grind] def wholeMessages (dumps : μ → Bytes) : ℕ → List μ → List μ
  | _, [] => []
  | available, message :: rest =>
      if (frame (dumps message)).length ≤ available then
        message :: wholeMessages dumps (available - (frame (dumps message)).length) rest
      else []

section Messages

variable {format : MessageFormat μ}

theorem contentLengthText_frame
    (n : ℕ) :
    contentLengthText [(codePoints "content-length", digitCodes n)] = digitCodes n := by
  simp [contentLengthText]

/-- Behind the header of a frame the body is read. -/
theorem readMessage_header
    (parse : Bytes → Parsed μ)
    {n : ℕ}
    (hpos : 0 < n)
    (hmax : n ≤ maxMessageBytes)
    (rest : Bytes) :
    readMessage parse (frameHeader n ++ [13, 10] ++ rest) = readBody parse n rest := by
  have hlines : maxHeaderLines = 126 + 2 := rfl
  have hlimits : ¬ ((n : ℤ) ≤ 0 ∨ (maxMessageBytes : ℤ) < n) := by
    omega
  rw [readMessage, hlines, readHeaders_frame hmax]
  simp only [contentLengthText_frame, parseInt_digitCodes, if_neg hlimits, Int.toNat_natCast]

/-- A frame with a body within the limit is read. -/
theorem readMessage_frame
    {message : μ}
    (hpos : 0 < (format.dumps message).length)
    (hmax : (format.dumps message).length ≤ maxMessageBytes)
    (rest : Bytes) :
    readMessage format.parse (frame (format.dumps message) ++ rest) = (.message message, rest) := by
  rw [frame, List.append_assoc, readMessage_header _ hpos hmax, readBody, List.take_left,
    List.drop_left]
  simp only [if_neg (List.ne_nil_of_length_pos hpos), format.parse_dumps]

/-- A frame that breaks off is no message. -/
theorem readMessage_cut
    {message other : μ}
    (hpos : 0 < (format.dumps message).length)
    (hmax : (format.dumps message).length ≤ maxMessageBytes)
    {cut rest : Bytes}
    (hcut : cut <+: frame (format.dumps message))
    (hne : cut ≠ frame (format.dumps message)) :
    readMessage format.parse cut ≠ (.message other, rest) := by
  -- a body that breaks off
  have hbody : ∀ part, part <+: format.dumps message → part ≠ format.dumps message →
      readBody format.parse (format.dumps message).length part ≠ (.message other, rest) := by
    intro part hpart hshort hread
    have htake : part.take (format.dumps message).length = part :=
      List.take_of_length_le hpart.length_le
    have hparse := format.parse_cut message part hpart hshort other
    rw [readBody, htake] at hread
    split_ifs at hread
    · cases hread
    · cases hfound : format.parse part with
      | object found =>
          rw [hfound] at hread hparse
          obtain rfl := ReadOutcome.message.inj (Prod.mk.inj hread).1
          exact hparse rfl
      | other =>
          rw [hfound] at hread
          cases hread
      | raised =>
          rw [hfound] at hread
          cases hread
  rcases prefix_append_cases hcut with hheader | ⟨part, rfl, hpart⟩
  · by_cases hwhole : cut = frameHeader (format.dumps message).length ++ [13, 10]
    · rw [hwhole, ← List.append_nil (_ ++ [13, 10]), readMessage_header _ hpos hmax]
      exact hbody [] List.nil_prefix (List.ne_nil_of_length_pos hpos).symm
    · have hnone := @readHeaders_cut 127 _ hmax cut hheader hwhole
      have hlines : maxHeaderLines = 127 + 1 := rfl
      intro hread
      rw [readMessage, hlines] at hread
      generalize readHeaders (127 + 1) [] 0 cut = found at hread hnone
      obtain ⟨headers, left⟩ := found
      obtain rfl : headers = none := hnone
      cases hread
  · rw [readMessage_header _ hpos hmax]
    exact hbody part hpart fun heq => hne (by rw [heq, frame])

/-- Of a stream of messages that breaks off anywhere, the reader gets the messages that are whole,
in their order, and nothing else. -/
theorem readMessages_frames
    (format : MessageFormat μ)
    (messages : List μ)
    (hlength : ∀ message ∈ messages, 0 < (format.dumps message).length ∧
      (format.dumps message).length ≤ maxMessageBytes)
    (available fuel : ℕ)
    (hfuel : messages.length < fuel) :
    readMessages format.parse fuel
      ((messages.flatMap fun message => frame (format.dumps message)).take available) =
        wholeMessages format.dumps available messages := by
  induction messages generalizing available fuel with
  | nil =>
      obtain ⟨fuel, rfl⟩ := Nat.exists_eq_add_one_of_ne_zero (Nat.ne_zero_of_lt hfuel)
      rw [List.flatMap_nil, List.take_nil, wholeMessages, readMessages]
      rfl
  | cons message rest ih =>
      obtain ⟨fuel, rfl⟩ := Nat.exists_eq_add_one_of_ne_zero (Nat.ne_zero_of_lt hfuel)
      rw [List.forall_mem_cons] at hlength
      obtain ⟨⟨hpos, hmax⟩, hrest⟩ := hlength
      rw [List.flatMap_cons, wholeMessages]
      split_ifs with hwhole
      · rw [List.take_append, List.take_of_length_le hwhole, readMessages,
          readMessage_frame hpos hmax]
        exact congrArg (List.cons message) (ih hrest _ fuel (Nat.lt_of_succ_lt_succ hfuel))
      · rw [List.take_append_of_le_length (Nat.le_of_not_le hwhole), readMessages]
        have hcut := List.take_prefix available (frame (format.dumps message))
        have hne : (frame (format.dumps message)).take available ≠ frame (format.dumps message) := by
          intro heq
          exact hwhole (List.take_eq_self_iff _ |>.mp heq)
        split
        · next other left hread => exact absurd hread (readMessage_cut hpos hmax hcut hne)
        · rfl

end Messages

/-- A reader for the object without fields, as `json.loads` reads it. -/
def emptyObjectFormat : MessageFormat Unit where
  dumps := fun _ => asciiBytes "\x7b\x7d"
  parse := fun body => if body = asciiBytes "\x7b\x7d" then .object () else .raised
  parse_dumps := fun _ => if_pos rfl
  parse_cut := by
    intro message cut _ hne other
    rw [if_neg hne]
    exact nofun

/-- Of two messages the second one breaks off. -/
theorem readMessages_frames_broken :
    readMessages emptyObjectFormat.parse 3
      (([(), ()].flatMap fun message => frame (emptyObjectFormat.dumps message)).take 30) =
        [()] :=
  (readMessages_frames emptyObjectFormat [(), ()] (by decide) 30 3 (by decide)).trans (by decide)

/-! ## Limits -/

section Limits

/-- The headers are a beginning of the stream that keeps the limits. -/
theorem readHeaders_consumes
    {lines : ℕ} :
    ∀ {headers : Headers} {total : ℕ} {stream : Bytes}, total ≤ maxHeaderBytes →
      ∃ taken, stream = taken ++ (readHeaders lines headers total stream).2 ∧
        total + taken.length ≤ 2 * maxHeaderBytes := by
  induction lines with
  | zero =>
      intro headers total stream htotal
      exact ⟨[], rfl, by rw [List.length_nil]; omega⟩
  | succ lines ih =>
      intro headers total stream htotal
      have happend := readLine_append maxHeaderBytes stream
      have hline := length_readLine_le maxHeaderBytes stream
      have hstop : ∃ taken, stream = taken ++ (readLine maxHeaderBytes stream).2 ∧
          total + taken.length ≤ 2 * maxHeaderBytes :=
        ⟨_, happend.symm, by omega⟩
      rw [readHeaders]
      split_ifs with hnil hlong hover hblank
      · exact hstop
      · exact hstop
      · exact hstop
      · exact hstop
      · obtain ⟨taken, htaken, hbound⟩ :=
          @ih ((headerOf (readLine maxHeaderBytes stream).1).toList ++ headers)
            (total + (readLine maxHeaderBytes stream).1.length)
            (readLine maxHeaderBytes stream).2 (Nat.not_lt.mp hover)
        refine ⟨(readLine maxHeaderBytes stream).1 ++ taken, ?_, ?_⟩
        · rw [List.append_assoc, ← htaken, happend]
        · rw [List.length_append]
          omega

/-- Whatever comes on the stream, one call takes a beginning of it that is no longer than two header
limits and one message limit. -/
theorem readMessage_consumes
    (parse : Bytes → Parsed μ)
    (stream : Bytes) :
    ∃ taken, stream = taken ++ (readMessage parse stream).2 ∧
      taken.length ≤ 2 * maxHeaderBytes + maxMessageBytes := by
  obtain ⟨taken, htaken, hbound⟩ :=
    @readHeaders_consumes maxHeaderLines [] 0 stream (Nat.zero_le _)
  rw [readMessage]
  generalize readHeaders maxHeaderLines [] 0 stream = found at htaken ⊢
  obtain ⟨headers, rest⟩ := found
  have hheaders : ∃ taken, stream = taken ++ rest ∧
      taken.length ≤ 2 * maxHeaderBytes + maxMessageBytes :=
    ⟨taken, htaken, by omega⟩
  cases headers with
  | none => exact hheaders
  | some headers =>
      simp only
      cases hlength : parseInt (contentLengthText headers) with
      | none => exact hheaders
      | some contentLength =>
          simp only
          split_ifs with hlimits
          · exact hheaders
          · have hbody : (readBody parse contentLength.toNat rest).2 =
                rest.drop contentLength.toNat := by
              rw [readBody]
              split_ifs
              · rfl
              · cases parse (rest.take contentLength.toNat) <;> rfl
            rw [not_or] at hlimits
            refine ⟨taken ++ rest.take contentLength.toNat, ?_, ?_⟩
            · rw [hbody, List.append_assoc, List.take_append_drop, htaken]
            · rw [List.length_append, List.length_take]
              omega

end Limits

end Lsp
end TensorGrep
