import Gran.Mesh.Node

/-!
# The two-dimensional mesh node

`node2d.h` and `node2d.c`: the address format, the selectors, the candidate lists and the port
search of `receive`. Packets are routed along y first, then along x.
-/

namespace Gran

/-- The directional ports of a `node2d`. -/
inductive Dir2 where
  | north | east | south | west
deriving DecidableEq

/-- The fields of an address in a two-dimensional mesh. -/
structure Addr2d where
  x : BitVec 8
  y : BitVec 8
  elem : BitVec 16
  off : BitVec 32

/-- `mesh2d_addr`. -/
def mesh2dAddr (x y : BitVec 8) (elem : BitVec 16) (off : BitVec 32) : Word :=
  off.zeroExtend 64 ||| elem.zeroExtend 64 <<< 32 ||| x.zeroExtend 64 <<< 48 |||
    y.zeroExtend 64 <<< 56

/-- `addr_mesh2d`. -/
def addrMesh2d (addr : Word) : Addr2d where
  off := (addr &&& 0xffffffff).truncate 32
  elem := (addr >>> 32 &&& 0xffff).truncate 16
  x := (addr >>> 48 &&& 0xff).truncate 8
  y := (addr >>> 56 &&& 0xff).truncate 8

namespace Node2d

/-- `struct sel_helper`. -/
structure SelHelper where
  x : BitVec 8
  y : BitVec 8
  elem : BitVec 16

/-- `north_sel`. -/
def northSel (helper : SelHelper) (pkt : Packet) : Bool :=
  let a := addrMesh2d pkt.dst
  a.y > helper.y

/-- `south_sel`. -/
def southSel (helper : SelHelper) (pkt : Packet) : Bool :=
  let a := addrMesh2d pkt.dst
  a.y < helper.y

/-- `east_sel`. -/
def eastSel (helper : SelHelper) (pkt : Packet) : Bool :=
  let a := addrMesh2d pkt.dst
  a.y == helper.y && a.x > helper.x

/-- `west_sel`. -/
def westSel (helper : SelHelper) (pkt : Packet) : Bool :=
  let a := addrMesh2d pkt.dst
  a.y == helper.y && a.x < helper.x

/-- `elem_sel`. -/
def elemSel (helper : SelHelper) (pkt : Packet) : Bool :=
  let a := addrMesh2d pkt.dst
  a.x == helper.x && a.y == helper.y && a.elem == helper.elem

/-- The selector handed to each directional `propagate`. -/
def dirSel (helper : SelHelper) : Dir2 → Packet → Bool
  | .north => northSel helper
  | .east => eastSel helper
  | .south => southSel helper
  | .west => westSel helper

/-- The lists `north`, `east`, `south` and `west` of `node2d_clock`, behind `r`. -/
def inputs : Dir2 → List Dir2
  | .north => [.east, .south, .west]
  | .east => [.north, .south, .west]
  | .south => [.north, .east, .west]
  | .west => [.north, .east, .south]

/-- The loop of `node2d_receive`; running out of ports is the `abort`. -/
def arrive {N : Type} [DecidableEq N] {n : Nat} (ports : Port Dir2 n → Option (Comp N))
    (sender : Comp N) (now : Word) (pkt : Packet) :
    List (Port Dir2 n) → Option (Port Dir2 n × Packet)
  | [] => none
  | p :: rest =>
      if some sender ≠ ports p then arrive ports sender now pkt rest
      else
        let pkt := if p.isElem then { pkt with timestamp := now } else pkt
        some (p, pkt)

/-- `node2d_clock` and `node2d_receive` as a kind of mesh node; `helper c` holds the coordinates
of node `c`. -/
def kind {N : Type} [DecidableEq N] (helper : N → SelHelper) : NodeKind N Dir2 where
  dirs := [.north, .east, .south, .west]
  inputs := inputs
  dirSel c := dirSel (helper c)
  elemSel c i := elemSel { helper c with elem := BitVec.ofNat 16 i }
  arrive := arrive

end Node2d

end Gran
