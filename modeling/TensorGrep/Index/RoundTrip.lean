import TensorGrep.Index.Codec

/-!
# The index file format is inverted by its reader

Every writer of the format is matched with its reader, from single numbers up
to whole files.  `exists_bincodeDeserialize_append` is the round trip: within
`WireBounds`, reading gives back the index that was written and ignores what
follows it.
-/

namespace TensorGrep
namespace Index

open Kernel Reader

/-! ## Reading back numbers -/

theorem toNat_and_low7
    (v : UInt32) :
    (v &&& 0x7f).toUInt8.toNat = v.toNat % 128 := by
  rw [UInt32.toNat_toUInt8, UInt32.toNat_and]
  have hmask : v.toNat &&& (0x7f : UInt32).toNat = v.toNat % 2 ^ 7 :=
    Nat.and_two_pow_sub_one_eq_mod v.toNat 7
  rw [hmask]
  omega

theorem toNat_and_low7_byte
    (b : UInt8) :
    (b &&& 0x7f).toUInt32.toNat = b.toNat % 128 := by
  rw [UInt8.toNat_toUInt32, UInt8.toNat_and]
  exact Nat.and_two_pow_sub_one_eq_mod b.toNat 7

theorem and_high_eq_zero_iff
    (b : UInt8) :
    b &&& 0x80 = 0 ↔ b.toNat < 128 := by
  have hall : ∀ n < 256, UInt8.ofNat n &&& 0x80 = 0 ↔ n < 128 := by
    decide +kernel
  have hb := hall b.toNat (UInt8.toNat_lt b)
  rwa [UInt8.ofNat_toNat] at hb

theorem toNat_or_high
    {b : UInt8}
    (h : b.toNat < 128) :
    (b ||| 0x80).toNat = b.toNat + 128 := by
  have hall : ∀ n < 128, (UInt8.ofNat n ||| 0x80).toNat = n + 128 := by
    decide
  have hb := hall b.toNat h
  rwa [UInt8.ofNat_toNat] at hb

/-- Shifting low bits in above the bits already read adds them. -/
theorem toNat_or_shiftLeft
    {acc d shift : UInt32}
    (hshift : shift.toNat < 32)
    (hacc : acc.toNat < 2 ^ shift.toNat)
    (hd : d.toNat * 2 ^ shift.toNat < 2 ^ 32) :
    (acc ||| (d <<< shift)).toNat = acc.toNat + d.toNat * 2 ^ shift.toNat := by
  rw [UInt32.toNat_or, UInt32.toNat_shiftLeft, Nat.mod_eq_of_lt hshift, Nat.shiftLeft_eq,
    Nat.mod_eq_of_lt hd, ← Nat.shiftLeft_eq, Nat.or_comm,
    ← Nat.shiftLeft_add_eq_or_of_lt hacc, Nat.add_comm]

theorem decodes_readU8
    (b : UInt8) :
    Decodes readU8 [b] b :=
  fun _ => rfl

/-- One round of the reader. -/
theorem decodes_varintRounds_succ
    {n : Nat}
    {value shift r : UInt32}
    {byte : UInt8}
    {bs : Bytes}
    (hshift : shift.toNat < 32)
    (h : Decodes
      (if byte &&& 0x80 = 0 then
        succeed (value ||| ((byte &&& 0x7f).toUInt32 <<< shift))
      else
        varintRounds n (value ||| ((byte &&& 0x7f).toUInt32 <<< shift)) (shift + 7))
      bs r) :
    Decodes (varintRounds (n + 1) value shift) (byte :: bs) r := by
  have hround : Decodes (varintRounds (n + 1) value shift) ([byte] ++ bs) r := by
    refine decodes_andThen (decodes_readU8 byte) ?_
    rw [if_neg (Nat.not_le.mpr hshift)]
    exact h
  exact hround

/-- The reader continues a number that the writer has begun. -/
theorem decodes_varintRounds
    {n : Nat}
    {acc v shift r : UInt32}
    (hn : 1 ≤ n)
    (hshift : shift.toNat + 7 * n = 35)
    (hacc : acc.toNat < 2 ^ shift.toNat)
    (hv : v.toNat * 2 ^ shift.toNat < 2 ^ 32)
    (hr : r.toNat = acc.toNat + v.toNat * 2 ^ shift.toNat) :
    Decodes (varintRounds n acc shift) (writeVarintU32 v) r := by
  induction n generalizing acc v shift with
  | zero => omega
  | succ n ih =>
      have hlt : ¬ 32 ≤ shift.toNat := by omega
      rw [writeVarintU32]
      by_cases hbig : 0x80 ≤ v.toNat
      · rw [if_pos hbig]
        have hlow := toNat_and_low7 v
        have hlow_lt : (v &&& 0x7f).toUInt8.toNat < 128 := by omega
        have hbyte := toNat_or_high hlow_lt
        have hpow : 2 ^ (shift.toNat + 7) < 2 ^ 32 := by
          calc
            2 ^ (shift.toNat + 7) = 128 * 2 ^ shift.toNat := by ring
            _ ≤ v.toNat * 2 ^ shift.toNat := Nat.mul_le_mul_right _ hbig
            _ < 2 ^ 32 := hv
        have hshift' : shift.toNat + 7 < 32 :=
          (Nat.pow_lt_pow_iff_right (by omega)).mp hpow
        have hdigit : (((v &&& 0x7f).toUInt8 ||| 0x80) &&& 0x7f).toUInt32.toNat =
            v.toNat % 128 := by
          rw [toNat_and_low7_byte, hbyte]
          omega
        have hmod : v.toNat % 128 * 2 ^ shift.toNat < 2 ^ 32 :=
          lt_of_le_of_lt (Nat.mul_le_mul_right _ (Nat.mod_le _ _)) hv
        have hnew := toNat_or_shiftLeft (by omega) hacc (hdigit ▸ hmod)
        rw [hdigit] at hnew
        have hsplit := Nat.div_add_mod v.toNat 128
        have hadd : (shift + 7).toNat = shift.toNat + 7 := by
          rw [UInt32.toNat_add]
          simp
          omega
        have hdiv : (v >>> 7).toNat = v.toNat / 128 := by
          rw [UInt32.toNat_shiftRight]
          simp [Nat.shiftRight_eq_div_pow]
        have hpow7 : 2 ^ (shift.toNat + 7) = 128 * 2 ^ shift.toNat := by ring
        have hrest := @ih (acc ||| ((((v &&& 0x7f).toUInt8 ||| 0x80) &&& 0x7f).toUInt32
            <<< shift)) (v >>> 7) (shift + 7) (by omega) (by omega) ?_ ?_ ?_
        · have hhigh : ¬ (((v &&& 0x7f).toUInt8 ||| 0x80) &&& 0x80 = 0) := by
            rw [and_high_eq_zero_iff, hbyte]
            omega
          refine decodes_varintRounds_succ (by omega) ?_
          rw [if_neg hhigh]
          exact hrest
        · rw [hnew, hadd, hpow7]
          have : v.toNat % 128 * 2 ^ shift.toNat ≤ 127 * 2 ^ shift.toNat :=
            Nat.mul_le_mul_right _ (by omega)
          omega
        · rw [hadd, hdiv, hpow7]
          calc
            v.toNat / 128 * (128 * 2 ^ shift.toNat)
                = (128 * (v.toNat / 128)) * 2 ^ shift.toNat := by ring
            _ ≤ v.toNat * 2 ^ shift.toNat := Nat.mul_le_mul_right _ (by omega)
            _ < 2 ^ 32 := hv
        · rw [hr, hnew, hadd, hdiv, hpow7]
          calc
            acc.toNat + v.toNat * 2 ^ shift.toNat
                = acc.toNat + (128 * (v.toNat / 128) + v.toNat % 128) *
                    2 ^ shift.toNat := by rw [hsplit]
            _ = _ := by ring
      · rw [if_neg hbig]
        have hsmall : v.toUInt8.toNat = v.toNat := by
          rw [UInt32.toNat_toUInt8]
          omega
        have hdigit : (v.toUInt8 &&& 0x7f).toUInt32.toNat = v.toNat := by
          rw [toNat_and_low7_byte, hsmall]
          omega
        have hhigh : v.toUInt8 &&& 0x80 = 0 := by
          rw [and_high_eq_zero_iff, hsmall]
          omega
        have hvalue : acc ||| ((v.toUInt8 &&& 0x7f).toUInt32 <<< shift) = r := by
          apply UInt32.toNat_inj.mp
          rw [toNat_or_shiftLeft (by omega) hacc (hdigit ▸ hv), hdigit, hr]
        refine decodes_varintRounds_succ (by omega) ?_
        rw [if_pos hhigh, hvalue]
        exact decodes_succeed r

/-- `read_varint_u32` inverts `write_varint_u32`. -/
theorem decodes_readVarintU32
    (v : UInt32) :
    Decodes readVarintU32 (writeVarintU32 v) v := by
  have hzero : (0 : UInt32).toNat = 0 := rfl
  refine decodes_varintRounds (by omega) (by omega) ?_ ?_ ?_
  · rw [hzero]
    norm_num
  · rw [hzero, Nat.pow_zero, Nat.mul_one]
    exact UInt32.toNat_lt v
  · rw [hzero]
    omega

theorem decodes_readU32Le
    (n : UInt32) :
    Decodes readU32Le (leBytes 4 n.toNat) n := by
  have hread := decodes_readExact IndexError.truncated (leBytes 4 n.toNat)
  rw [length_leBytes] at hread
  have hlt : n.toNat < 256 ^ 4 := UInt32.toNat_lt n
  have hvalue : UInt32.ofNat (fromLe (leBytes 4 n.toNat)) = n := by
    rw [fromLe_leBytes, Nat.mod_eq_of_lt hlt, UInt32.ofNat_toNat]
  have hdec := decodes_andThen hread (f := fun bytes => succeed (UInt32.ofNat (fromLe bytes)))
    (decodes_succeed _)
  rwa [List.append_nil, hvalue] at hdec

theorem decodes_countBytes
    (n : Nat) :
    Decodes readU32Le (countBytes n) (UInt32.ofNat n) :=
  decodes_readU32Le _

theorem decodes_readU64Le
    (n : UInt64) :
    Decodes readU64Le (leBytes 8 n.toNat) n := by
  have hread := decodes_readExact IndexError.truncated (leBytes 8 n.toNat)
  rw [length_leBytes] at hread
  have hlt : n.toNat < 256 ^ 8 := UInt64.toNat_lt n
  have hvalue : UInt64.ofNat (fromLe (leBytes 8 n.toNat)) = n := by
    rw [fromLe_leBytes, Nat.mod_eq_of_lt hlt, UInt64.ofNat_toNat]
  have hdec := decodes_andThen hread (f := fun bytes => succeed (UInt64.ofNat (fromLe bytes)))
    (decodes_succeed _)
  rwa [List.append_nil, hvalue] at hdec

theorem decodes_readU128Le
    (n : BitVec 128) :
    Decodes readU128Le (leBytes 16 n.toNat) n := by
  have hread := decodes_readExact IndexError.truncated (leBytes 16 n.toNat)
  rw [length_leBytes] at hread
  have hlt : n.toNat < 256 ^ 16 := n.isLt
  have hvalue : BitVec.ofNat 128 (fromLe (leBytes 16 n.toNat)) = n := by
    rw [fromLe_leBytes, Nat.mod_eq_of_lt hlt, BitVec.ofNat_toNat, BitVec.setWidth_eq]
  have hdec := decodes_andThen hread (f := fun bytes => succeed (BitVec.ofNat 128 (fromLe bytes)))
    (decodes_succeed _)
  rwa [List.append_nil, hvalue] at hdec

/-! ## Reading back posting lists -/

theorem toNat_sub_of_le
    {a b : UInt32}
    (h : b.toNat ≤ a.toNat) :
    (a - b).toNat = a.toNat - b.toNat :=
  UInt32.toNat_sub_of_le a b (UInt32.le_iff_toNat_le.mpr h)

theorem checkedAdd_checkedSub
    {a b d : UInt32}
    (h : checkedSub a b = some d) :
    checkedAdd b d = some a := by
  unfold checkedSub at h
  split_ifs at h with hle
  cases h
  have hlt := UInt32.toNat_lt a
  have hsub := toNat_sub_of_le hle
  unfold checkedAdd
  rw [hsub, if_pos (by omega)]
  congr 1
  apply UInt32.toNat_inj.mp
  rw [UInt32.toNat_add, hsub]
  omega

theorem decodeFileId_of_encodeFileId
    {c : Cursor}
    {fileId d : UInt32}
    (h : encodeFileId c fileId = .ok d) :
    decodeFileId c d = .ok fileId := by
  unfold encodeFileId at h
  unfold decodeFileId
  split_ifs at h ⊢ with hfirst
  · exact h.symm
  · cases hsub : checkedSub fileId c.previousFileId with
    | none =>
        rw [hsub] at h
        cases h
    | some x =>
        rw [hsub] at h
        cases h
        rw [checkedAdd_checkedSub hsub]

theorem decodeLine_of_encodeLine
    {c : Cursor}
    {fileDelta line d : UInt32}
    (h : encodeLine c fileDelta line = .ok d) :
    decodeLine c fileDelta d = .ok line := by
  unfold encodeLine at h
  unfold decodeLine
  split_ifs at h ⊢ with hreset
  · exact h.symm
  · cases hsub : checkedSub line c.previousLine with
    | none =>
        rw [hsub] at h
        cases h
    | some x =>
        rw [hsub] at h
        cases h
        rw [checkedAdd_checkedSub hsub]

/-- One round of the decoder undoes one round of the encoder. -/
theorem decodes_readPosting
    {c : Cursor}
    {p : PostingEntry}
    {fileDelta lineDelta : UInt32}
    (acc : List PostingEntry)
    (hfile : encodeFileId c p.fileId = .ok fileDelta)
    (hline : encodeLine c fileDelta p.line = .ok lineDelta) :
    Decodes (readPosting (c, acc))
      (writeVarintU32 fileDelta ++ (writeVarintU32 lineDelta ++ ([] ++ ([] ++ []))))
      (Cursor.after p, acc ++ [p]) :=
  decodes_andThen (decodes_readVarintU32 fileDelta)
    (decodes_andThen (decodes_readVarintU32 lineDelta)
      (decodes_andThen (decodes_ofExcept (decodeFileId_of_encodeFileId hfile))
        (decodes_andThen (decodes_ofExcept (decodeLine_of_encodeLine hline))
          (decodes_succeed _))))

/-- The decoding loop undoes the encoding loop. -/
theorem decodes_readPostings
    {ps : List PostingEntry}
    {c : Cursor}
    {bs : Bytes}
    (acc : List PostingEntry)
    (h : writePostings c ps = .ok bs) :
    ∃ c', Decodes (loop readPosting ps.length (c, acc)) bs (c', acc ++ ps) := by
  induction ps generalizing c bs acc with
  | nil =>
      cases h
      exact ⟨c, by simpa using decodes_loop_zero readPosting (c, acc)⟩
  | cons p ps ih =>
      obtain ⟨fileDelta, hfile, h⟩ := bind_eq_ok_iff.mp h
      obtain ⟨lineDelta, hline, h⟩ := bind_eq_ok_iff.mp h
      obtain ⟨rest, hrest, h⟩ := bind_eq_ok_iff.mp h
      cases h
      obtain ⟨c', hc'⟩ := ih (acc ++ [p]) hrest
      refine ⟨c', ?_⟩
      have hround := decodes_loop_succ (decodes_readPosting acc hfile hline) hc'
      simpa using hround

/-- A posting that is not before the previous one can be encoded. -/
theorem exists_encode
    {c : Cursor}
    {p : PostingEntry}
    (h : c.first = true ∨
      (⟨c.previousFileId, c.previousLine⟩ : PostingEntry).key ≤ p.key) :
    ∃ fileDelta lineDelta, encodeFileId c p.fileId = .ok fileDelta ∧
      encodeLine c fileDelta p.line = .ok lineDelta := by
  unfold encodeFileId encodeLine
  cases hfirst : c.first with
  | true => exact ⟨_, _, rfl, rfl⟩
  | false =>
      have hle : (⟨c.previousFileId, c.previousLine⟩ : PostingEntry).key ≤ p.key := by
        simpa [hfirst] using h
      unfold PostingEntry.key at hle
      rw [Prod.Lex.toLex_le_toLex] at hle
      have hfile : c.previousFileId.toNat ≤ p.fileId.toNat := by
        rcases hle with hlt | ⟨heq, -⟩
        · exact Nat.le_of_lt hlt
        · exact Nat.le_of_eq heq
      have hsub : checkedSub p.fileId c.previousFileId =
          some (p.fileId - c.previousFileId) := if_pos hfile
      by_cases hpos : 0 < (p.fileId - c.previousFileId).toNat
      · refine ⟨p.fileId - c.previousFileId, p.line, ?_, ?_⟩
        · simp [hsub]
        · simp [hpos]
      · have hline : c.previousLine.toNat ≤ p.line.toNat := by
          rw [toNat_sub_of_le hfile] at hpos
          rcases hle with hlt | ⟨-, hline⟩
          · simp only at hlt
            omega
          · exact hline
        have hsub' : checkedSub p.line c.previousLine =
            some (p.line - c.previousLine) := if_pos hline
        refine ⟨p.fileId - c.previousFileId, p.line - c.previousLine, ?_, ?_⟩
        · simp [hsub]
        · simp [hpos, hsub']

/-- A sorted posting list can be encoded. -/
theorem exists_writePostings
    {ps : List PostingEntry}
    {c : Cursor}
    (hsorted : ps.Pairwise (fun a b => a.key ≤ b.key))
    (hc : c.first = true ∨
      ∀ p ∈ ps, (⟨c.previousFileId, c.previousLine⟩ : PostingEntry).key ≤ p.key) :
    ∃ bs, writePostings c ps = .ok bs := by
  induction ps generalizing c with
  | nil => exact ⟨[], rfl⟩
  | cons p ps ih =>
      rw [List.pairwise_cons] at hsorted
      obtain ⟨fileDelta, lineDelta, hfile, hline⟩ :=
        exists_encode (hc.imp_right (fun h => h p (by simp)))
      obtain ⟨rest, hrest⟩ := @ih (Cursor.after p) hsorted.2
        (Or.inr (fun q hq => hsorted.1 q hq))
      refine ⟨writeVarintU32 fileDelta ++ (writeVarintU32 lineDelta ++ rest), ?_⟩
      unfold writePostings
      exact bind_eq_ok_iff.mpr ⟨_, hfile, bind_eq_ok_iff.mpr ⟨_, hline,
        bind_eq_ok_iff.mpr ⟨rest, hrest, rfl⟩⟩⟩

/-! ## Reading back entries -/

theorem forall_pathComponents
    {rel : Text} :
    (PathComponent.parentDir ∉ pathComponents rel ∧
      PathComponent.rootDir ∉ pathComponents rel) ↔ Confined rel := by
  unfold Confined pathComponents
  simp only [List.mem_append, List.mem_map, List.mem_filter]
  constructor
  · rintro ⟨hparent, hroot⟩
    refine ⟨fun hhead => hroot (Or.inl (by simp [hhead])), fun hdots => ?_⟩
    exact hparent (Or.inr ⟨['.', '.'], ⟨hdots, by simp⟩, by simp⟩)
  · rintro ⟨hhead, hdots⟩
    refine ⟨?_, ?_⟩
    · rintro (h | ⟨s, ⟨hs, -⟩, hcomp⟩)
      · rw [if_neg hhead] at h
        split_ifs at h <;> simp at h
      · split_ifs at hcomp with heq
        exact hdots (heq ▸ hs)
    · rintro (h | ⟨s, -, hcomp⟩)
      · rw [if_neg hhead] at h
        split_ifs at h <;> simp at h
      · split_ifs at hcomp

/-- The reader accepts exactly the confined paths. -/
theorem validateEntryRelPath_eq_ok_iff
    {rel : Text} :
    validateEntryRelPath rel = .ok () ↔ Confined rel := by
  unfold validateEntryRelPath
  by_cases hhead : rel.head? = some '/'
  · rw [if_pos hhead]
    constructor
    · intro h
      cases h
    · intro h
      exact absurd hhead h.1
  · rw [if_neg hhead, ← forall_pathComponents]
    refine Iff.trans forM_eq_ok_iff ?_
    constructor
    · intro h
      constructor
      · intro hmem
        cases h _ hmem
      · intro hmem
        cases h _ hmem
    · rintro ⟨hparent, hroot⟩ component hmem
      cases component with
      | rootDir => exact absurd hmem hroot
      | curDir => rfl
      | parentDir => exact absurd hmem hparent
      | normal name => rfl

theorem decodes_readExact_of_count
    {bs : Bytes}
    (h : bs.length < 2 ^ 32) :
    Decodes (readExact IndexError.truncated (UInt32.ofNat bs.length).toNat) bs bs := by
  rw [fileId_toNat h]
  exact decodes_readExact IndexError.truncated bs

theorem flagByte_ne_zero
    (b : Bool) :
    decide (flagByte b ≠ 0) = b := by
  cases b <;> rfl

/-- One round of the loop over the entries. -/
theorem decodes_readEntry
    {e : FileEntry}
    (acc : List FileEntry)
    (hlen : (utf8 e.path).length < 2 ^ 32)
    (hconfined : Confined e.path) :
    Decodes (readEntry acc) (entryBytes e) (acc ++ [e]) := by
  have hround : Decodes (readEntry acc)
      (countBytes (utf8 e.path).length ++ (utf8 e.path ++ ([] ++ ([] ++
        (leBytes 16 e.mtimeNs.toNat ++ (leBytes 8 e.size.toNat ++
          ([flagByte e.deleted] ++ [])))))))
      (acc ++ [⟨e.path, e.mtimeNs, e.size, flagByte e.deleted ≠ 0⟩]) :=
    decodes_andThen (decodes_countBytes _)
      (decodes_andThen (decodes_readExact_of_count hlen)
        (decodes_andThen (decodes_ofOption _ (fromUtf8_utf8 e.path))
          (decodes_andThen
            (decodes_ofExcept (validateEntryRelPath_eq_ok_iff.mpr hconfined))
            (decodes_andThen (decodes_readU128Le _)
              (decodes_andThen (decodes_readU64Le _)
                (decodes_andThen (decodes_readU8 _) (decodes_succeed _)))))))
  rw [flagByte_ne_zero] at hround
  simpa [entryBytes] using hround

theorem decodes_readEntries
    {es : List FileEntry}
    (acc : List FileEntry)
    (hlen : ∀ e ∈ es, (utf8 e.path).length < 2 ^ 32)
    (hconfined : ∀ e ∈ es, Confined e.path) :
    Decodes (loop readEntry es.length acc) (es.flatMap entryBytes) (acc ++ es) := by
  induction es generalizing acc with
  | nil => simpa using decodes_loop_zero readEntry acc
  | cons e es ih =>
      have hrest := ih (acc ++ [e]) (fun d hd => hlen d (List.mem_cons_of_mem _ hd))
        (fun d hd => hconfined d (List.mem_cons_of_mem _ hd))
      rw [List.append_assoc, List.singleton_append] at hrest
      exact decodes_loop_succ
        (decodes_readEntry acc (hlen e (by simp)) (hconfined e (by simp))) hrest

/-- One round of the loop over the posting lists. -/
theorem decodes_readPostingList
    {e : Sigma (fun _ : Trigram => List PostingEntry)}
    {bs : Bytes}
    (acc : Postings)
    (hlen : e.2.length < 2 ^ 32)
    (h : postingListBytes e = .ok bs) :
    Decodes (readPostingList acc) bs (acc.insert e.1 e.2) := by
  unfold postingListBytes at h
  obtain ⟨body, hbody, h⟩ := bind_eq_ok_iff.mp h
  cases h
  obtain ⟨c, hlist⟩ := decodes_readPostings [] hbody
  have hcount : (UInt32.ofNat e.2.length).toNat = e.2.length := fileId_toNat hlen
  rw [← hcount] at hlist
  have hround : Decodes (readPostingList acc)
      (trigramBytes e.1 ++ ([] ++ (countBytes e.2.length ++ ([] ++ (body ++ [])))))
      (acc.insert e.1 ([] ++ e.2)) :=
    decodes_andThen (decodes_readExact IndexError.truncated (trigramBytes e.1))
      (decodes_andThen (decodes_ofOption _ rfl)
        (decodes_andThen (decodes_countBytes _)
          (decodes_andThen (decodes_reserve (UInt32.toNat_lt _) (by norm_num))
            (decodes_andThen hlist (decodes_succeed _)))))
  simpa using hround

theorem decodes_readPostingLists
    {es : List (Sigma (fun _ : Trigram => List PostingEntry))}
    {lists : List Bytes}
    (acc : Postings)
    (hlen : ∀ e ∈ es, e.2.length < 2 ^ 32)
    (h : es.mapM postingListBytes = .ok lists) :
    Decodes (loop readPostingList es.length acc) lists.flatten
      (es.foldl (fun m e => m.insert e.1 e.2) acc) := by
  have hall := mapM_eq_ok_iff.mp h
  clear h
  induction hall generalizing acc with
  | nil => exact decodes_loop_zero readPostingList acc
  | @cons e bs es lists he _ ih =>
      exact decodes_loop_succ (decodes_readPostingList acc (hlen e (by simp)) he)
        (ih (acc.insert e.1 e.2) (fun d hd => hlen d (List.mem_cons_of_mem _ hd)))

/-! ## The mirror that the reader rebuilds -/

/-- Whether a hit is among the trigrams of a file. -/
def HasHit
    (fileTrigrams : List FileTrigramHits)
    (f : Nat)
    (h : Trigram × UInt32) : Prop :=
  ∃ hits, fileTrigrams[f]? = some hits ∧ h ∈ hits

theorem hitKey_injective :
    Function.Injective hitKey := by
  rintro ⟨⟨a, b, c⟩, n⟩ ⟨⟨a', b', c'⟩, n'⟩ h
  simp only [hitKey, List.cons.injEq, and_true] at h
  obtain ⟨ha, hb, hc, hn⟩ := h
  rw [UInt8.toNat_inj.mp ha, UInt8.toNat_inj.mp hb, UInt8.toNat_inj.mp hc,
    UInt32.toNat_inj.mp hn]

theorem pushHit_eq_ok
    {acc acc' : List FileTrigramHits}
    {x : Trigram × PostingEntry}
    (h : pushHit acc x = .ok acc') :
    x.2.fileId.toNat < acc.length ∧ acc'.length = acc.length ∧
      ∀ f y, HasHit acc' f y ↔
        HasHit acc f y ∨ (x.2.fileId.toNat = f ∧ y = (x.1, x.2.line)) := by
  unfold pushHit at h
  cases hslot : acc[x.2.fileId.toNat]? with
  | none =>
      rw [hslot] at h
      cases h
  | some hits =>
      rw [hslot] at h
      cases h
      have hlt := (List.getElem?_eq_some_iff.mp hslot).1
      refine ⟨hlt, List.length_set, ?_⟩
      intro f y
      unfold HasHit
      by_cases hf : x.2.fileId.toNat = f
      · subst hf
        rw [List.getElem?_set_self hlt, hslot]
        simp
      · rw [List.getElem?_set_ne hf]
        simp [hf]

/-- What the filling loop leaves behind when it succeeds. -/
theorem foldlM_pushHit
    {l : List (Trigram × PostingEntry)}
    {acc acc' : List FileTrigramHits}
    (h : l.foldlM pushHit acc = .ok acc') :
    (∀ x ∈ l, x.2.fileId.toNat < acc.length) ∧ acc'.length = acc.length ∧
      ∀ f y, HasHit acc' f y ↔
        HasHit acc f y ∨ ∃ x ∈ l, x.2.fileId.toNat = f ∧ y = (x.1, x.2.line) := by
  induction l generalizing acc with
  | nil =>
      cases h
      simp
  | cons x l ih =>
      rw [List.foldlM_cons] at h
      obtain ⟨acc₁, h₁, h₂⟩ := bind_eq_ok_iff.mp h
      obtain ⟨hlt, hlen, hpush⟩ := pushHit_eq_ok h₁
      obtain ⟨hrange, hlen', hrest⟩ := ih h₂
      refine ⟨?_, hlen'.trans hlen, ?_⟩
      · intro y hy
        rcases List.mem_cons.mp hy with rfl | hy
        · exact hlt
        · rw [← hlen]
          exact hrange y hy
      · intro f y
        rw [hrest, hpush]
        simp only [List.mem_cons, exists_eq_or_imp]
        tauto

/-- The filling loop succeeds when every identifier is in range. -/
theorem exists_foldlM_pushHit
    {l : List (Trigram × PostingEntry)}
    {acc : List FileTrigramHits}
    (h : ∀ x ∈ l, x.2.fileId.toNat < acc.length) :
    ∃ acc', l.foldlM pushHit acc = .ok acc' := by
  induction l generalizing acc with
  | nil => exact ⟨acc, rfl⟩
  | cons x l ih =>
      obtain ⟨hits, hslot⟩ : ∃ hits, acc[x.2.fileId.toNat]? = some hits :=
        ⟨_, List.getElem?_eq_getElem (h x (by simp))⟩
      have hx : pushHit acc x =
          .ok (acc.set x.2.fileId.toNat (hits ++ [(x.1, x.2.line)])) := by
        unfold pushHit
        rw [hslot]
      obtain ⟨acc', hacc'⟩ :=
        @ih (acc.set x.2.fileId.toNat (hits ++ [(x.1, x.2.line)])) (by
          intro y hy
          rw [List.length_set]
          exact h y (List.mem_cons_of_mem _ hy))
      refine ⟨acc', ?_⟩
      rw [List.foldlM_cons]
      exact bind_eq_ok_iff.mpr ⟨_, hx, hacc'⟩

theorem mem_allPostings
    {postings : Postings}
    {x : Trigram × PostingEntry} :
    x ∈ allPostings postings ↔ x.2 ∈ postings.get x.1 := by
  obtain ⟨t, p⟩ := x
  unfold allPostings MultiMap.get
  rw [List.mem_flatMap]
  constructor
  · rintro ⟨⟨t', l⟩, he, hp⟩
    obtain ⟨q, hq, heq⟩ := List.mem_map.mp hp
    cases heq
    rw [MultiMap.mem_entries_iff.mp he]
    exact hq
  · intro hp
    cases hl : postings.lookup t with
    | none =>
        rw [hl] at hp
        cases hp
    | some l =>
        rw [hl] at hp
        exact ⟨⟨t, l⟩, MultiMap.mem_entries_iff.mpr hl, List.mem_map_of_mem hp⟩

theorem hasHit_map_sortDedup
    {acc : List FileTrigramHits}
    {f : Nat}
    {y : Trigram × UInt32} :
    HasHit (acc.map (sortDedup hitKey)) f y ↔ HasHit acc f y := by
  unfold HasHit
  rw [List.getElem?_map]
  cases acc[f]? with
  | none => simp
  | some hits => simp [mem_sortDedup hitKey_injective]

/-- The rebuilt mirror: it exists exactly when all identifiers are in range. -/
theorem rebuildFileTrigrams_eq_ok
    {n : Nat}
    {postings : Postings}
    {fileTrigrams : List FileTrigramHits}
    (h : rebuildFileTrigrams n postings = .ok fileTrigrams) :
    (∀ t, ∀ p ∈ postings.get t, p.fileId.toNat < n) ∧ fileTrigrams.length = n ∧
      ∀ f t line, HasHit fileTrigrams f (t, line) ↔
        ∃ p ∈ postings.get t, p.fileId.toNat = f ∧ p.line = line := by
  unfold rebuildFileTrigrams at h
  obtain ⟨filled, hfilled, h⟩ := bind_eq_ok_iff.mp h
  cases h
  obtain ⟨hrange, hlen, hhits⟩ := foldlM_pushHit hfilled
  rw [List.length_replicate] at hrange hlen
  refine ⟨?_, by rw [List.length_map, hlen], ?_⟩
  · intro t p hp
    exact hrange (t, p) (mem_allPostings.mpr hp)
  · intro f t line
    rw [hasHit_map_sortDedup, hhits]
    constructor
    · rintro (⟨hits, hslot, hmem⟩ | ⟨⟨t', p⟩, hx, hf, heq⟩)
      · rw [List.eq_of_mem_replicate (List.mem_of_getElem? hslot)] at hmem
        cases hmem
      · cases heq
        exact ⟨p, mem_allPostings.mp hx, hf, rfl⟩
    · rintro ⟨p, hp, hf, rfl⟩
      exact Or.inr ⟨(t, p), mem_allPostings.mpr hp, hf, rfl⟩

theorem exists_rebuildFileTrigrams
    {n : Nat}
    {postings : Postings}
    (h : ∀ t, ∀ p ∈ postings.get t, p.fileId.toNat < n) :
    ∃ fileTrigrams, rebuildFileTrigrams n postings = .ok fileTrigrams := by
  obtain ⟨filled, hfilled⟩ := @exists_foldlM_pushHit (allPostings postings)
    (List.replicate n []) (by
      intro x hx
      rw [List.length_replicate]
      exact h x.1 x.2 (mem_allPostings.mp hx))
  exact ⟨_, bind_eq_ok_iff.mpr ⟨filled, hfilled, rfl⟩⟩

/-! ## Whole files -/

/-- What a build establishes about an index, as far as the format needs it. -/
structure WireInv (idx : TrigramIndex) : Prop where
  confined : ∀ e ∈ idx.files, Confined e.path
  sorted : ∀ t l, idx.postings.lookup t = some l →
    l.Pairwise (fun a b => a.key ≤ b.key)
  inRange : ∀ t, ∀ p ∈ idx.postings.get t, p.fileId.toNat < idx.files.length
  lengths : idx.fileTrigrams.length = idx.files.length
  mirror : ∀ f t n, HasHit idx.fileTrigrams f (t, n) ↔
    ∃ p ∈ idx.postings.get t, p.fileId.toNat = f ∧ p.line = n

/-- Every count and length that the format stores fits in 32 bits. -/
structure WireBounds (idx : TrigramIndex) : Prop where
  root : (utf8 idx.canonicalRoot).length < 2 ^ 32
  files : idx.files.length < 2 ^ 32
  paths : ∀ e ∈ idx.files, (utf8 e.path).length < 2 ^ 32
  lists : ∀ t l, idx.postings.lookup t = some l → l.length < 2 ^ 32

/-- Equality of the persisted parts, and of the per-file trigrams as sets. -/
structure SameIndex (idx idx' : TrigramIndex) : Prop where
  canonicalRoot : idx'.canonicalRoot = idx.canonicalRoot
  treeFingerprint : idx'.treeFingerprint = idx.treeFingerprint
  noIgnore : idx'.noIgnore = idx.noIgnore
  files : idx'.files = idx.files
  postings : ∀ t, idx'.postings.lookup t = idx.postings.lookup t
  lengths : idx'.fileTrigrams.length = idx.fileTrigrams.length
  fileTrigrams : ∀ f h, HasHit idx'.fileTrigrams f h ↔ HasHit idx.fileTrigrams f h

/-- Writing succeeds and reading the result gives the same index back. -/
def RoundTrips (idx : TrigramIndex) : Prop :=
  ∃ bytes idx', bincodeSerialize idx = .ok bytes ∧
    bincodeDeserialize bytes = .ok idx' ∧ SameIndex idx idx'

/-- There are fewer than `2 ^ 32` trigrams, so their number is never cut off. -/
theorem length_entries_lt
    (postings : Postings) :
    postings.entries.length < 2 ^ 32 := by
  have hinj : Function.Injective
      (fun t : Trigram => (t.1.toFin, t.2.1.toFin, t.2.2.toFin)) := by
    rintro ⟨a, b, c⟩ ⟨a', b', c'⟩ h
    simp only [Prod.mk.injEq, UInt8.toFin_inj] at h
    obtain ⟨rfl, rfl, rfl⟩ := h
    rfl
  have hnodup : ((postings.entries.map Sigma.fst).map
      (fun t : Trigram => (t.1.toFin, t.2.1.toFin, t.2.2.toFin))).Nodup :=
    List.Nodup.map hinj postings.nodupKeys
  have hcard := hnodup.length_le_card
  simp only [List.length_map, Fintype.card_prod, Fintype.card_fin] at hcard
  have hsize : UInt8.size * (UInt8.size * UInt8.size) < 2 ^ 32 := by decide
  omega

theorem lookup_foldl_insert
    (es : List (Sigma (fun _ : Trigram => List PostingEntry)))
    (hnodup : es.NodupKeys)
    (acc : Postings)
    (t : Trigram) :
    (es.foldl (fun m e => m.insert e.1 e.2) acc).lookup t =
      (es.dlookup t).or (acc.lookup t) := by
  induction es generalizing acc with
  | nil => simp
  | cons e es ih =>
      obtain ⟨a, l⟩ := e
      obtain ⟨hfresh, hrest⟩ := List.nodupKeys_cons.mp hnodup
      rw [List.foldl_cons, ih hrest]
      by_cases ht : t = a
      · subst ht
        have habsent : es.dlookup t = none := List.dlookup_eq_none.mpr hfresh
        simp [habsent]
      · simp [List.dlookup_cons_ne, ht, AList.lookup_insert_ne ht]

/-- Within the bounds, reading gives back what was written, whatever follows it. -/
theorem exists_bincodeDeserialize_append
    {idx : TrigramIndex}
    (hinv : WireInv idx)
    (hbounds : WireBounds idx) :
    ∃ bytes idx', bincodeSerialize idx = .ok bytes ∧ SameIndex idx idx' ∧
      ∀ rest, bincodeDeserialize (bytes ++ rest) = .ok idx' := by
  obtain ⟨lists, hlists⟩ : ∃ lists,
      idx.postings.entries.mapM postingListBytes = .ok lists := by
    apply exists_mapM
    rintro ⟨t, l⟩ he
    obtain ⟨bs, hbs⟩ := exists_writePostings
      (hinv.sorted t l (MultiMap.mem_entries_iff.mp he)) (c := Cursor.start) (Or.inl rfl)
    exact ⟨_, bind_eq_ok_iff.mpr ⟨bs, hbs, rfl⟩⟩
  have hfiles : (UInt32.ofNat idx.files.length).toNat = idx.files.length :=
    fileId_toNat hbounds.files
  have hcount : (UInt32.ofNat idx.postings.entries.length).toNat =
      idx.postings.entries.length :=
    fileId_toNat (length_entries_lt idx.postings)
  have hentries := decodes_readEntries [] hbounds.paths hinv.confined
  rw [← hfiles, List.nil_append] at hentries
  have hpostings := decodes_readPostingLists ∅
    (fun e he => hbounds.lists e.1 e.2 (MultiMap.mem_entries_iff.mp he)) hlists
  rw [← hcount] at hpostings
  have hlookup : ∀ t, (idx.postings.entries.foldl (fun m e => m.insert e.1 e.2)
      (∅ : Postings)).lookup t = idx.postings.lookup t := by
    intro t
    rw [lookup_foldl_insert _ idx.postings.nodupKeys, AList.lookup_empty, Option.or_none]
    rfl
  generalize idx.postings.entries.foldl (fun m e => m.insert e.1 e.2) (∅ : Postings) =
    postings at hpostings hlookup
  have hget : ∀ t, postings.get t = idx.postings.get t := by
    intro t
    unfold MultiMap.get
    rw [hlookup]
  obtain ⟨fileTrigrams, htri⟩ := @exists_rebuildFileTrigrams idx.files.length postings (by
    intro t p hp
    rw [hget] at hp
    exact hinv.inRange t p hp)
  obtain ⟨-, hlen, hhits⟩ := rebuildFileTrigrams_eq_ok htri
  have hread : Decodes readIndex
      (indexMagic ++ ([] ++ ([indexFormatVersion] ++ ([] ++ ([flagByte idx.noIgnore] ++
        (countBytes (utf8 idx.canonicalRoot).length ++ (utf8 idx.canonicalRoot ++ ([] ++
          (leBytes 8 idx.treeFingerprint.toNat ++ (countBytes idx.files.length ++ ([] ++
            (idx.files.flatMap entryBytes ++
              (countBytes idx.postings.entries.length ++ ([] ++ (lists.flatten ++
                ([] ++ []))))))))))))))))
      { root := idx.canonicalRoot
        canonicalRoot := idx.canonicalRoot
        treeFingerprint := idx.treeFingerprint
        files := idx.files
        fileTrigrams := fileTrigrams
        postings := postings
        noIgnore := flagByte idx.noIgnore ≠ 0 } :=
    decodes_andThen (decodes_readExact IndexError.truncated indexMagic)
      (decodes_andThen (decodes_check _ (decide_eq_true rfl))
        (decodes_andThen (decodes_readU8 _)
          (decodes_andThen (decodes_check _ (decide_eq_true rfl))
            (decodes_andThen (decodes_readU8 _)
              (decodes_andThen (decodes_countBytes _)
                (decodes_andThen (decodes_readExact_of_count hbounds.root)
                  (decodes_andThen (decodes_ofOption _ (fromUtf8_utf8 _))
                    (decodes_andThen (decodes_readU64Le _)
                      (decodes_andThen (decodes_countBytes _)
                        (decodes_andThen (decodes_reserve (UInt32.toNat_lt _) (by norm_num))
                          (decodes_andThen hentries
                            (decodes_andThen (decodes_countBytes _)
                              (decodes_andThen
                                (decodes_reserve (UInt32.toNat_lt _) (by norm_num))
                                (decodes_andThen hpostings
                                  (decodes_andThen (decodes_ofExcept htri)
                                    (decodes_succeed _))))))))))))))))
  rw [flagByte_ne_zero] at hread
  simp only [List.append_nil, List.nil_append] at hread
  refine ⟨_, ⟨idx.canonicalRoot, idx.canonicalRoot, idx.treeFingerprint, idx.files,
    fileTrigrams, postings, idx.noIgnore⟩, bind_eq_ok_iff.mpr ⟨lists, hlists, rfl⟩, ?_, ?_⟩
  · exact {
      canonicalRoot := rfl
      treeFingerprint := rfl
      noIgnore := rfl
      files := rfl
      postings := hlookup
      lengths := hlen.trans hinv.lengths.symm
      fileTrigrams := by
        rintro f ⟨t, n⟩
        rw [hhits, hinv.mirror, hget] }
  · intro rest
    unfold bincodeDeserialize
    rw [if_neg, hread rest]
    simp [indexMagic]

/-- Within the bounds, an index survives writing and reading. -/
theorem roundTrips_of_wireBounds
    {idx : TrigramIndex}
    (hinv : WireInv idx)
    (hbounds : WireBounds idx) :
    RoundTrips idx := by
  obtain ⟨bytes, idx', hwrite, hsame, hread⟩ :=
    exists_bincodeDeserialize_append hinv hbounds
  refine ⟨bytes, idx', hwrite, ?_, hsame⟩
  rw [← List.append_nil bytes]
  exact hread []

end Index
end TensorGrep
