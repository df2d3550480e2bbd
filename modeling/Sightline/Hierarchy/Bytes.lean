import Sightline.Bytes
import Sightline.Disk
import Sightline.Hierarchy
/-! The file form of a hierarchy. Two words count the nodes and the triangle list; the nodes follow,
eight words each, then the list. A word is four bytes, the least first. The counts fix the length of
the file, so a file is read only if it has exactly that length, and nothing can be left out of it or
added to it. Reading looks at the framing alone; whether the nodes form a tree is checked elsewhere. -/
namespace Sightline

inductive CacheError where
  | io (why : IoFailure)
  | truncated
  | trailingData
  | noNodes
  | tooManyNodes (count : Nat)
  | tooManyIndices (count : Nat)
  deriving DecidableEq, Repr

def CacheError.message : CacheError → String
  | io why => "IO error: " ++ why.message
  | truncated => "Cache file is truncated"
  | trailingData => "Cache file has trailing data"
  | noNodes => "Inconsistent cache: no nodes"
  | tooManyNodes count => "Inconsistent cache: " ++ toString count ++ " nodes"
  | tooManyIndices count => "Inconsistent cache: " ++ toString count ++ " indices"

namespace Bytes

def nodeWords (n : Node) : List UInt32 :=
  [n.bottom.x,n.bottom.y,n.bottom.z,n.top.x,n.top.y,n.top.z,n.word0,n.word1]

def nodesOnto (acc : Array Node) : Nat → List UInt32 → Array Node × List UInt32
  | count + 1, a :: b :: c :: d :: e :: f :: g :: h :: rest =>
    nodesOnto (acc.push ⟨⟨a,b,c⟩,⟨d,e,f⟩,g,h⟩) count rest
  | _, words => (acc,words)

theorem nodesOntoWords (nodes : List Node) (rest : List UInt32) (acc : Array Node) :
    nodesOnto acc nodes.length (nodes.flatMap nodeWords ++ rest) = (acc ++ nodes.toArray,rest) := by
  induction nodes generalizing acc with
  | nil => cases rest <;> simp [nodesOnto]
  | cons n more ih =>
    simp only [List.flatMap_cons,nodeWords,List.cons_append,List.nil_append,List.length_cons,
      nodesOnto]
    rw [ih]
    simp

end Bytes

namespace Hierarchy

def words (h : Hierarchy) : List UInt32 := h.nodes.toList.flatMap Bytes.nodeWords ++ h.order.toList

def encode (h : Hierarchy) : Except CacheError (List UInt8) :=
  if h.nodes.size > 4294967295 then .error (.tooManyNodes h.nodes.size)
  else if h.order.size > 4294967295 then .error (.tooManyIndices h.order.size)
  else .ok ((h.nodes.size.toUInt32 :: h.order.size.toUInt32 :: h.words).flatMap Bytes.ofWord)

def fileLength (nodeCount indexCount : Nat) : Nat := 8 + 32 * nodeCount + 4 * indexCount

def decode : List UInt8 → Except CacheError Hierarchy
  | a :: b :: c :: d :: e :: f :: g :: i :: body =>
    let nodeCount := (Bytes.toWord a b c d).toNat
    let expected := fileLength nodeCount (Bytes.toWord e f g i).toNat
    let length := 8 + body.length
    if length < expected then .error .truncated
    else if length > expected then .error .trailingData
    else if nodeCount = 0 then .error .noNodes
    else
      let (nodes,order) := Bytes.nodesOnto #[] nodeCount (Bytes.wordsOnto #[] body).toList
      .ok ⟨nodes,order.toArray⟩
  | _ => .error .truncated

end Hierarchy
end Sightline
