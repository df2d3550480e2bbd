import Sightline.Cache

/-! The file form is an exact code. Any bytes of the right number are words, and any words of the right number
are nodes and a list, so a file that is read at all is what would be written for the hierarchy it holds, and
what is written reads back word for word. The counts in front fix the length: a file cut short anywhere is
truncated and a longer one has trailing data. The length is computed without leaving 64 bits. -/
namespace Sightline

namespace Bytes

theorem wordsSpelled (count : Nat) {bytes : List UInt8} (length : bytes.length = 4 * count) :
    ∃ words : List UInt32, words.length = count ∧ words.flatMap ofWord = bytes := by
  induction count generalizing bytes with
  | zero => exact ⟨[],rfl,(List.length_eq_zero_iff.mp length).symm⟩
  | succ count ih =>
    match bytes with
    | a :: b :: c :: d :: rest =>
      simp only [List.length_cons] at length
      obtain ⟨words,counted,spelled⟩ := @ih rest (by omega)
      refine ⟨toWord a b c d :: words,by rw [List.length_cons,counted],?_⟩
      rw [List.flatMap_cons,ofWordToWord,spelled]
      rfl
    | [] | [_] | [_,_] | [_,_,_] =>
      simp only [List.length_cons,List.length_nil] at length
      omega

theorem nodesSpelled (count : Nat) {words : List UInt32} (enough : 8 * count ≤ words.length) :
    ∃ (nodes : List Node) (rest : List UInt32), nodes.length = count ∧
      nodes.flatMap nodeWords ++ rest = words := by
  induction count generalizing words with
  | zero => exact ⟨[],words,rfl,rfl⟩
  | succ count ih =>
    match words with
    | a :: b :: c :: d :: e :: f :: g :: h :: more =>
      simp only [List.length_cons] at enough
      obtain ⟨nodes,rest,counted,spelled⟩ := @ih more (by omega)
      refine ⟨⟨⟨a,b,c⟩,⟨d,e,f⟩,g,h⟩ :: nodes,rest,by rw [List.length_cons,counted],?_⟩
      rw [List.flatMap_cons,List.append_assoc,spelled]
      rfl
    | [] | [_] | [_,_] | [_,_,_] | [_,_,_,_] | [_,_,_,_,_] | [_,_,_,_,_,_] | [_,_,_,_,_,_,_] =>
      simp only [List.length_cons,List.length_nil] at enough
      omega

theorem wordsBytes (words : List UInt32) : (words.flatMap ofWord).length = 4 * words.length := by
  induction words with
  | nil => rfl
  | cons w rest ih =>
    rw [List.flatMap_cons,List.length_append,ih,ofWordLength,List.length_cons]
    omega

theorem nodesWords (nodes : List Node) : (nodes.flatMap nodeWords).length = 8 * nodes.length := by
  induction nodes with
  | nil => rfl
  | cons n rest ih =>
    rw [List.flatMap_cons,List.length_append,ih,List.length_cons]
    simp only [nodeWords,List.length_cons,List.length_nil]
    omega

end Bytes

namespace Hierarchy

theorem wordsLength (h : Hierarchy) : h.words.length = 8 * h.nodes.size + h.order.size := by
  rw [words,List.length_append,Bytes.nodesWords,Array.length_toList,Array.length_toList]

def framed (nodeCount indexCount : UInt32) (body : List UInt8) : List UInt8 :=
  Bytes.ofWord nodeCount ++ (Bytes.ofWord indexCount ++ body)

theorem framedLength (n i : UInt32) (body : List UInt8) : (framed n i body).length = 8 + body.length := by
  simp only [framed,List.length_append,Bytes.ofWordLength]
  omega

theorem framedSome {f : List UInt8} (long : 8 ≤ f.length) : ∃ n i body, f = framed n i body := by
  match f with
  | a :: b :: c :: d :: e :: g :: i :: j :: body =>
    refine ⟨Bytes.toWord a b c d,Bytes.toWord e g i j,body,?_⟩
    rw [framed,Bytes.ofWordToWord,Bytes.ofWordToWord]
    rfl
  | [] | [_] | [_,_] | [_,_,_] | [_,_,_,_] | [_,_,_,_,_] | [_,_,_,_,_,_] | [_,_,_,_,_,_,_] =>
    simp at long

theorem framedTake {n i : UInt32} {body : List UInt8} {length : Nat} (header : 8 ≤ length) :
    (framed n i body).take length = framed n i (body.take (length - 8)) := by
  obtain ⟨rest,rfl⟩ := Nat.exists_eq_add_of_le' header
  rw [Nat.add_sub_cancel]
  rfl

theorem framedAppend (n i : UInt32) (body more : List UInt8) :
    framed n i body ++ more = framed n i (body ++ more) := rfl

theorem decodeShort {f : List UInt8} (short : f.length < 8) : decode f = .error .truncated := by
  unfold decode
  split
  · simp only [List.length_cons] at short
    omega
  · rfl

theorem decodeFramed (n i : UInt32) (body : List UInt8) : decode (framed n i body) =
    if 8 + body.length < fileLength n.toNat i.toNat then .error .truncated
    else if fileLength n.toNat i.toNat < 8 + body.length then .error .trailingData
    else if n.toNat = 0 then .error .noNodes
    else
      let (nodes,order) := Bytes.nodesOnto #[] n.toNat (Bytes.wordsOnto #[] body).toList
      .ok ⟨nodes,order.toArray⟩ := by
  simp only [framed,Bytes.ofWord,List.cons_append,List.nil_append,decode,Bytes.toWordOfWord]

theorem encodeIff {h : Hierarchy} {f : List UInt8} : h.encode = .ok f ↔
    h.nodes.size < 4294967296 ∧ h.order.size < 4294967296 ∧
      f = framed h.nodes.size.toUInt32 h.order.size.toUInt32 (h.words.flatMap Bytes.ofWord) := by
  unfold encode
  by_cases nodes : h.nodes.size > 4294967295
  · rw [if_pos nodes]
    exact ⟨fun refused => (nomatch refused),fun fits => absurd fits.1 (by omega)⟩
  rw [if_neg nodes]
  by_cases order : h.order.size > 4294967295
  · rw [if_pos order]
    exact ⟨fun refused => (nomatch refused),fun fits => absurd fits.2.1 (by omega)⟩
  rw [if_neg order,List.flatMap_cons,List.flatMap_cons]
  constructor
  · intro written
    exact ⟨by omega,by omega,(Except.ok.inj written).symm⟩
  · intro fits
    rw [fits.2.2]
    rfl

theorem encodedFramed {h : Hierarchy} {f : List UInt8} (written : h.encode = .ok f) : ∃ n i : UInt32,
    n.toNat = h.nodes.size ∧ i.toNat = h.order.size ∧
      f = framed n i (h.words.flatMap Bytes.ofWord) ∧
      8 + (h.words.flatMap Bytes.ofWord).length = fileLength n.toNat i.toNat := by
  obtain ⟨nodes,order,same⟩ := encodeIff.mp written
  have countN : h.nodes.size.toUInt32.toNat = h.nodes.size := UInt32.toNat_ofNat_of_lt' nodes
  have countI : h.order.size.toUInt32.toNat = h.order.size := UInt32.toNat_ofNat_of_lt' order
  refine ⟨_,_,countN,countI,same,?_⟩
  rw [countN,countI,Bytes.wordsBytes,wordsLength,fileLength]
  omega

theorem decodeWritten {h : Hierarchy} {f : List UInt8} (nonempty : 0 < h.nodes.size)
    (written : h.encode = .ok f) : decode f = .ok h := by
  obtain ⟨n,i,countN,countI,rfl,length⟩ := encodedFramed written
  rw [decodeFramed,length,if_neg (Nat.lt_irrefl _),if_neg (Nat.lt_irrefl _),
    if_neg (by omega),Bytes.wordsOntoBytes,countN]
  have read := Bytes.nodesOntoWords h.nodes.toList h.order.toList #[]
  rw [Array.length_toList] at read
  simp [words,read]

theorem writtenDecode {h : Hierarchy} {f : List UInt8} (loaded : decode f = .ok h) :
    0 < h.nodes.size ∧ h.encode = .ok f := by
  by_cases short : f.length < 8
  · rw [decodeShort short] at loaded
    contradiction
  obtain ⟨n,i,body,rfl⟩ := framedSome (Nat.not_lt.mp short)
  rw [decodeFramed] at loaded
  split at loaded
  · contradiction
  split at loaded
  · contradiction
  split at loaded
  · contradiction
  rename_i notShort notLong some
  have length : body.length = 4 * (8 * n.toNat + i.toNat) := by
    unfold fileLength at notShort notLong
    omega
  obtain ⟨words,counted,rfl⟩ := Bytes.wordsSpelled _ length
  obtain ⟨nodes,order,countN,rfl⟩ := @Bytes.nodesSpelled n.toNat words (by omega)
  rw [List.length_append,Bytes.nodesWords] at counted
  rw [Bytes.wordsOntoBytes,← countN] at loaded
  simp only [Bytes.nodesOntoWords,Array.empty_append] at loaded
  cases Except.ok.inj loaded
  have sizeN : nodes.toArray.size = n.toNat := countN
  have sizeI : order.toArray.size = i.toNat := by
    rw [List.size_toArray]
    omega
  refine ⟨by rw [sizeN]; omega,encodeIff.mpr ⟨?_,?_,?_⟩⟩
  · rw [sizeN]
    exact n.toNat_lt
  · rw [sizeI]
    exact i.toNat_lt
  · rw [sizeN,sizeI,Nat.toUInt32_eq,UInt32.ofNat_toNat,Nat.toUInt32_eq,UInt32.ofNat_toNat]
    rfl

theorem decodeShorter {h : Hierarchy} {f : List UInt8} (written : h.encode = .ok f) {length : Nat}
    (short : length < f.length) : decode (f.take length) = .error .truncated := by
  obtain ⟨n,i,_,_,same,total⟩ := encodedFramed written
  rw [same,framedLength] at short
  rw [same]
  by_cases header : 8 ≤ length
  · rw [framedTake header,decodeFramed,← total,if_pos]
    rw [List.length_take]
    omega
  · refine decodeShort ?_
    rw [List.length_take]
    omega

theorem decodeLonger {h : Hierarchy} {f : List UInt8} (written : h.encode = .ok f) {more : List UInt8}
    (longer : more ≠ []) : decode (f ++ more) = .error .trailingData := by
  obtain ⟨n,i,_,_,same,total⟩ := encodedFramed written
  have some := List.length_pos_iff.mpr longer
  rw [same,framedAppend,decodeFramed,← total,List.length_append,if_neg (by omega),if_pos (by omega)]

theorem fileLengthWord (n i : UInt32) :
    (8 + n.toUInt64 * 32 + i.toUInt64 * 4).toNat = fileLength n.toNat i.toNat := by
  have wordN := n.toNat_lt
  have wordI := i.toNat_lt
  simp only [UInt64.toNat_add,UInt64.toNat_mul,UInt32.toNat_toUInt64,fileLength]
  simp
  omega

theorem filesExact :
    (∀ h : Hierarchy, 0 < h.nodes.size → h.nodes.size < 4294967296 → h.order.size < 4294967296 →
      ∃ f, h.encode = .ok f ∧ decode f = .ok h) ∧
    (∀ f h, decode f = .ok h → h.encode = .ok f) ∧
    (∀ (h : Hierarchy) f, h.encode = .ok f →
      (∀ length < f.length, decode (f.take length) = .error .truncated) ∧
      ∀ more, more ≠ [] → decode (f ++ more) = .error .trailingData) ∧
    ∀ n i : UInt32, fileLength n.toNat i.toNat < 18446744073709551616 ∧
      (8 + n.toUInt64 * 32 + i.toUInt64 * 4).toNat = fileLength n.toNat i.toNat := by
  refine ⟨?_,?_,?_,?_⟩
  · intro h nonempty nodes order
    have written := encodeIff.mpr ⟨nodes,order,rfl⟩
    exact ⟨_,written,decodeWritten nonempty written⟩
  · intro f h loaded
    exact (writtenDecode loaded).2
  · intro h f written
    exact ⟨fun length => decodeShorter written,fun more => decodeLonger written⟩
  · intro n i
    have word := fileLengthWord n i
    exact ⟨word ▸ UInt64.toNat_lt _,word⟩

/- One leaf, its box full of words that are no numbers or are a zero with a sign. -/
def unnumbered : Hierarchy :=
  ⟨#[⟨⟨0x7fc00001,0xffffffff,0x80000000⟩,⟨0x7f800001,0x7f800000,0⟩,0x80000001,0⟩],#[7]⟩

theorem unnumberedFile : ∃ f, unnumbered.encode = .ok f ∧ decode f = .ok unnumbered ∧
    (∀ length < f.length, decode (f.take length) = .error .truncated) ∧
    decode (f ++ [0]) = .error .trailingData := by
  obtain ⟨f,written,loaded⟩ := filesExact.1 unnumbered (by decide) (by decide) (by decide)
  obtain ⟨shorter,longer⟩ := filesExact.2.2.1 unnumbered f written
  exact ⟨f,written,loaded,shorter,longer [0] (by decide)⟩

end Hierarchy

namespace Cache.Slot
variable {s saved : Slot} {h : Hierarchy}

theorem savedLoads (nonempty : 0 < h.nodes.size) (written : s.save h = .ok saved)
    (readable : saved.readable = true) : saved.load = .ok h := by
  unfold save at written
  split at written
  · contradiction
  split at written
  · contradiction
  split at written
  · rename_i bytes encoded _ _
    cases Except.ok.inj written
    exact (if_pos readable).trans (Hierarchy.decodeWritten nonempty encoded)
  · contradiction

theorem loadedSaves (loaded : s.load = .ok h) (writable : s.writable = true) : s.save h = .ok s := by
  unfold load at loaded
  split at loaded
  · contradiction
  · contradiction
  rename_i bytes there
  split at loaded
  · have encoded := (Hierarchy.writtenDecode loaded).2
    obtain ⟨entry,_,_,_⟩ := s
    cases there
    cases writable
    simp [save,encoded]
  · contradiction

end Cache.Slot
end Sightline
