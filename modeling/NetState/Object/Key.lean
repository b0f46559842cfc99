import NetState.Handle
import NetState.Ip.Basic

namespace NetState

/-- What tells an object from others of its kind. -/
inductive Key where
  | link (index : UInt32)
  | address (interface : UInt32) (ip : Ip) (length : UInt8)
  | route (table : UInt32) (tos : UInt8) (destination : Ip) (length : UInt8) (metric : UInt32)
  | discipline (interface : UInt32) (parent : Handle)
  | filter (interface : UInt32) (parent : Handle) (protocol priority : UInt16) (handle : Handle)
  deriving DecidableEq, Repr

namespace Key

/-- The fields of a key as numbers, after the number of its form. -/
def code : Key → List Nat
  | link index => [0, index.toNat]
  | address interface ip length => 1 :: interface.toNat :: ip.code ++ [length.toNat]
  | route table tos destination length metric =>
    2 :: table.toNat :: tos.toNat :: destination.code ++ [length.toNat, metric.toNat]
  | discipline interface parent => [3, interface.toNat, parent.raw.toNat]
  | filter interface parent protocol priority handle =>
    [4, interface.toNat, parent.raw.toNat, protocol.toNat, priority.toNat, handle.raw.toNat]

/-- The order of keys. -/
def order (a b : Key) : Ordering :=
  compareOfLessAndEq a.code b.code

/-- A 16-bit number in at least four hexadecimal digits, marked as such. -/
def hexWord (n : UInt16) : String :=
  let digits := Text.hexadecimal n.toNat
  "0x" ++ String.ofList (List.replicate (4 - digits.length) '0' ++ digits)

def text : Key → String
  | link index => "link " ++ toString index.toNat
  | address interface ip length =>
    Cause.network ip length ++ " dev " ++ toString interface.toNat
  | route table tos destination length metric =>
    Cause.network destination length ++ " table " ++ toString table.toNat ++ " tos " ++
      toString tos.toNat ++ " metric " ++ toString metric.toNat
  | discipline interface parent =>
    "qdisc dev " ++ toString interface.toNat ++ " parent " ++ parent.text
  | filter interface parent protocol priority handle =>
    "filter dev " ++ toString interface.toNat ++ " parent " ++ parent.text ++ " protocol " ++
      hexWord protocol ++ " prio " ++ toString priority.toNat ++ " handle " ++ handle.text

theorem code_injective {a b : Key} (h : a.code = b.code) : a = b := by
  have hip {x y : Ip} {u v : List Nat} (h : x.code ++ u = y.code ++ v) : x = y ∧ u = v := by
    have hlength : x.code.length = y.code.length := by cases x <;> cases y <;> rfl
    obtain ⟨hcode, hrest⟩ := List.append_inj h hlength
    exact ⟨Ip.code_injective hcode, hrest⟩
  cases a <;> cases b <;> simp only [code, List.cons_append] at h <;>
    first | (injection h with htag _; exact absurd htag (by decide)) | skip
  case link.link =>
    simp_all [UInt32.toNat_inj]
  case address.address =>
    injection h with _ h
    injection h with hinterface h
    obtain ⟨rfl, hlength⟩ := hip h
    simp_all [UInt32.toNat_inj, UInt8.toNat_inj]
  case route.route =>
    injection h with _ h
    injection h with htable h
    injection h with htos h
    obtain ⟨rfl, hrest⟩ := hip h
    simp_all [UInt32.toNat_inj, UInt8.toNat_inj]
  case discipline.discipline parent _ parent' =>
    cases parent
    cases parent'
    simp_all [UInt32.toNat_inj]
  case filter.filter parent _ _ handle _ parent' _ _ handle' =>
    cases parent
    cases parent'
    cases handle
    cases handle'
    simp_all [UInt32.toNat_inj, UInt16.toNat_inj]

end Key

end NetState
