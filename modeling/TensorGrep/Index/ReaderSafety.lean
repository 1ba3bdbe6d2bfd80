import TensorGrep.Index.RoundTrip

/-!
# The index reader on arbitrary bytes

The reader never panics, and what it accepts is sorted, in range, confined and
within the 32-bit bounds (`bincodeDeserialize_sound`).  Since everything the
reader returns is within the bounds, an index survives writing and reading
only within the bounds (`roundTrips_iff`).
-/

namespace TensorGrep
namespace Index

open Kernel Reader

theorem sound_readU8 :
    Sound readU8 (fun _ => True) :=
  sound_andThen (sound_readExact _ 1) (fun _ h => sound_firstByte h)

theorem sound_varintRounds
    {n : Nat}
    {value shift : UInt32}
    (h : shift.toNat + 7 * n ≤ 35) :
    Sound (varintRounds n value shift) (fun _ => True) := by
  induction n generalizing value shift with
  | zero => exact sound_fail _
  | succ n ih =>
      refine sound_andThen sound_readU8 (fun byte _ => ?_)
      rw [if_neg (show ¬ 32 ≤ shift.toNat by omega)]
      have hadd : (shift + 7).toNat = shift.toNat + 7 := by
        rw [UInt32.toNat_add]
        simp
        omega
      by_cases hstop : byte &&& 0x80 = 0
      · rw [if_pos hstop]
        exact sound_succeed trivial
      · rw [if_neg hstop]
        exact ih (by omega)

theorem sound_readVarintU32 :
    Sound readVarintU32 (fun _ => True) :=
  sound_varintRounds (by decide)

theorem sound_readU32Le :
    Sound readU32Le (fun _ => True) :=
  sound_andThen (sound_readExact _ 4) (fun _ _ => sound_succeed trivial)

theorem sound_readU64Le :
    Sound readU64Le (fun _ => True) :=
  sound_andThen (sound_readExact _ 8) (fun _ _ => sound_succeed trivial)

theorem sound_readU128Le :
    Sound readU128Le (fun _ => True) :=
  sound_andThen (sound_readExact _ 16) (fun _ _ => sound_succeed trivial)

/-- The decoding loop has read `k` postings, in order, up to the cursor. -/
def CursorInv (k : Nat) (s : Cursor × List PostingEntry) : Prop :=
  s.2.length = k ∧ s.2.Pairwise (fun a b => a.key ≤ b.key) ∧
    (s.1.first = true ∧ s.2 = [] ∨
      s.1.first = false ∧
        ∀ e ∈ s.2, e.key ≤ (⟨s.1.previousFileId, s.1.previousLine⟩ : PostingEntry).key)

theorem toNat_checkedAdd
    {a b c : UInt32}
    (h : checkedAdd a b = some c) :
    c.toNat = a.toNat + b.toNat := by
  unfold checkedAdd at h
  split_ifs at h with hlt
  cases h
  rw [UInt32.toNat_add]
  omega

/-- A decoded posting is not before the previous one. -/
theorem key_le_of_decode
    {c : Cursor}
    {fileDelta lineDelta fileId line : UInt32}
    (hfirst : c.first = false)
    (hfile : decodeFileId c fileDelta = .ok fileId)
    (hline : decodeLine c fileDelta lineDelta = .ok line) :
    (⟨c.previousFileId, c.previousLine⟩ : PostingEntry).key ≤
      (⟨fileId, line⟩ : PostingEntry).key := by
  unfold decodeFileId at hfile
  unfold decodeLine at hline
  rw [hfirst] at hfile hline
  simp only [Bool.false_eq_true, if_false, Bool.false_or, decide_eq_true_eq] at hfile hline
  cases hadd : checkedAdd c.previousFileId fileDelta with
  | none =>
      rw [hadd] at hfile
      cases hfile
  | some x =>
      rw [hadd] at hfile
      cases hfile
      have hx := toNat_checkedAdd hadd
      unfold PostingEntry.key
      rw [Prod.Lex.toLex_le_toLex]
      by_cases hpos : 0 < fileDelta.toNat
      · left
        simp only
        omega
      · rw [if_neg hpos] at hline
        cases hadd' : checkedAdd c.previousLine lineDelta with
        | none =>
            rw [hadd'] at hline
            cases hline
        | some y =>
            rw [hadd'] at hline
            cases hline
            have hy := toNat_checkedAdd hadd'
            right
            simp only
            omega

theorem sound_readPosting
    {k : Nat}
    {s : Cursor × List PostingEntry}
    (h : CursorInv k s) :
    Sound (readPosting s) (CursorInv (k + 1)) := by
  refine sound_andThen sound_readVarintU32 (fun fileDelta _ => ?_)
  refine sound_andThen sound_readVarintU32 (fun lineDelta _ => ?_)
  refine sound_andThen (sound_ofExcept _) (fun fileId hfile => ?_)
  refine sound_andThen (sound_ofExcept _) (fun line hline => ?_)
  apply sound_succeed
  obtain ⟨hlen, hsorted, hcursor⟩ := h
  have hle : ∀ e ∈ s.2, e.key ≤ (⟨fileId, line⟩ : PostingEntry).key := by
    rcases hcursor with ⟨-, hnil⟩ | ⟨hfirst, hprev⟩
    · simp [hnil]
    · intro e he
      exact le_trans (hprev e he) (key_le_of_decode hfirst hfile hline)
  refine ⟨by simp [hlen], ?_, Or.inr ⟨rfl, ?_⟩⟩
  · rw [List.pairwise_append]
    refine ⟨hsorted, List.pairwise_singleton _ _, ?_⟩
    intro a ha b hb
    rw [List.mem_singleton.mp hb]
    exact hle a ha
  · intro e he
    rcases List.mem_append.mp he with he | he
    · exact hle e he
    · rw [List.mem_singleton.mp he]
      exact le_rfl

/-- The entries read so far are confined and have short paths. -/
def EntriesInv (k : Nat) (files : List FileEntry) : Prop :=
  files.length = k ∧
    ∀ e ∈ files, Confined e.path ∧ (utf8 e.path).length < 2 ^ 32

theorem sound_readEntry
    {k : Nat}
    {files : List FileEntry}
    (h : EntriesInv k files) :
    Sound (readEntry files) (EntriesInv (k + 1)) := by
  refine sound_andThen sound_readU32Le (fun pathLen _ => ?_)
  refine sound_andThen (sound_readExact _ _) (fun pathBytes hbytes => ?_)
  refine sound_andThen (sound_ofOption _) (fun path hpath => ?_)
  refine sound_andThen (sound_ofExcept _) (fun _ hvalid => ?_)
  refine sound_andThen sound_readU128Le (fun mtimeNs _ => ?_)
  refine sound_andThen sound_readU64Le (fun size _ => ?_)
  refine sound_andThen sound_readU8 (fun deleted _ => ?_)
  apply sound_succeed
  refine ⟨by simp [h.1], ?_⟩
  intro e he
  rcases List.mem_append.mp he with he | he
  · exact h.2 e he
  · rw [List.mem_singleton.mp he]
    refine ⟨validateEntryRelPath_eq_ok_iff.mp hvalid, ?_⟩
    simp only
    rw [utf8_of_fromUtf8 hpath, hbytes]
    exact UInt32.toNat_lt pathLen

/-- The posting lists read so far are sorted and short. -/
def ListsInv (postings : Postings) : Prop :=
  ∀ t l, postings.lookup t = some l →
    l.Pairwise (fun a b => a.key ≤ b.key) ∧ l.length < 2 ^ 32

theorem sound_readPostingList
    {postings : Postings}
    (h : ListsInv postings) :
    Sound (readPostingList postings) ListsInv := by
  refine sound_andThen (sound_readExact _ 3) (fun bytes _ => ?_)
  refine sound_andThen (sound_ofOption _) (fun trigram _ => ?_)
  refine sound_andThen sound_readU32Le (fun postingCount _ => ?_)
  refine sound_andThen (sound_reserve (UInt32.toNat_lt _) (by norm_num)) (fun _ _ => ?_)
  have hstart : CursorInv 0 (Cursor.start, []) :=
    ⟨rfl, List.Pairwise.nil, Or.inl ⟨rfl, rfl⟩⟩
  refine sound_andThen (sound_loop (fun k s hs => sound_readPosting hs) _ hstart)
    (fun s hs => ?_)
  apply sound_succeed
  intro t l hl
  by_cases ht : t = trigram
  · rw [ht, AList.lookup_insert] at hl
    cases hl
    refine ⟨hs.2.1, ?_⟩
    rw [hs.1, Nat.zero_add]
    exact UInt32.toNat_lt postingCount
  · rw [AList.lookup_insert_ne ht] at hl
    exact h t l hl

/-- Reading never panics, and whatever it returns can be written again. -/
theorem sound_readIndex :
    Sound readIndex (fun idx => WireInv idx ∧ WireBounds idx) := by
  refine sound_andThen (sound_readExact _ 4) (fun magic _ => ?_)
  refine sound_andThen (sound_check _) (fun _ _ => ?_)
  refine sound_andThen sound_readU8 (fun version _ => ?_)
  refine sound_andThen (sound_check _) (fun _ _ => ?_)
  refine sound_andThen sound_readU8 (fun noIgnore _ => ?_)
  refine sound_andThen sound_readU32Le (fun rootLen _ => ?_)
  refine sound_andThen (sound_readExact _ _) (fun rootBytes hbytes => ?_)
  refine sound_andThen (sound_ofOption _) (fun root hroot => ?_)
  refine sound_andThen sound_readU64Le (fun treeFingerprint _ => ?_)
  refine sound_andThen sound_readU32Le (fun filesCount _ => ?_)
  refine sound_andThen (sound_reserve (UInt32.toNat_lt _) (by norm_num)) (fun _ _ => ?_)
  have hnoFiles : EntriesInv 0 [] := ⟨rfl, by simp⟩
  refine sound_andThen (sound_loop (fun k s hs => sound_readEntry hs) _ hnoFiles)
    (fun files hfiles => ?_)
  refine sound_andThen sound_readU32Le (fun trigramCount _ => ?_)
  refine sound_andThen (sound_reserve (UInt32.toNat_lt _) (by norm_num)) (fun _ _ => ?_)
  have hnoLists : ListsInv ∅ := by
    intro t l hl
    rw [AList.lookup_empty] at hl
    cases hl
  have hlists : Sound (loop readPostingList trigramCount.toNat ∅) ListsInv :=
    @sound_loop _ _ readPostingList (fun _ => ListsInv)
      (fun _ _ h => sound_readPostingList h) _ 0 ∅ hnoLists
  refine sound_andThen hlists (fun postings hpostings => ?_)
  refine sound_andThen (sound_ofExcept _) (fun fileTrigrams htri => ?_)
  apply sound_succeed
  obtain ⟨hrange, hlen, hhits⟩ := rebuildFileTrigrams_eq_ok htri
  rw [Nat.zero_add] at hfiles
  constructor
  · exact {
      confined := fun e he => (hfiles.2 e he).1
      sorted := fun t l hl => (hpostings t l hl).1
      inRange := hrange
      lengths := hlen
      mirror := hhits }
  · refine ⟨?_, ?_, fun e he => (hfiles.2 e he).2, fun t l hl => (hpostings t l hl).2⟩
    · simp only
      rw [utf8_of_fromUtf8 hroot, hbytes]
      exact UInt32.toNat_lt rootLen
    · simp only
      rw [hfiles.1]
      exact UInt32.toNat_lt filesCount

/-- The reader is safe on every byte string. -/
theorem bincodeDeserialize_sound
    (data : Bytes) :
    match bincodeDeserialize data with
    | .ok idx => WireInv idx ∧ WireBounds idx
    | .error _ => True
    | .panicked => False := by
  unfold bincodeDeserialize
  split_ifs with hshort
  · trivial
  · have hread := sound_readIndex data
    cases hres : readIndex data with
    | ok p =>
        rw [hres] at hread
        exact hread
    | error e => trivial
    | panicked =>
        rw [hres] at hread
        exact hread

theorem wire_of_bincodeDeserialize
    {data : Bytes}
    {idx : TrigramIndex}
    (h : bincodeDeserialize data = .ok idx) :
    WireInv idx ∧ WireBounds idx := by
  have hsound := bincodeDeserialize_sound data
  rw [h] at hsound
  exact hsound

/-- An index survives writing and reading exactly within the bounds. -/
theorem roundTrips_iff
    {idx : TrigramIndex}
    (hinv : WireInv idx) :
    RoundTrips idx ↔ WireBounds idx := by
  constructor
  · rintro ⟨bytes, idx', -, hread, hsame⟩
    obtain ⟨-, hbounds⟩ := wire_of_bincodeDeserialize hread
    refine ⟨?_, ?_, ?_, ?_⟩
    · rw [← hsame.canonicalRoot]
      exact hbounds.root
    · rw [← hsame.files]
      exact hbounds.files
    · rw [← hsame.files]
      exact hbounds.paths
    · intro t l hl
      rw [← hsame.postings] at hl
      exact hbounds.lists t l hl
  · exact roundTrips_of_wireBounds hinv

end Index
end TensorGrep
