import Gran.Mesh.Network

/-!
# The three-dimensional mesh node

`node3d.h` and `node3d.c`: the address format, the selectors, the candidate lists and the port
search of `receive`. Packets are routed along y first, then x, then z.
-/

namespace Gran

/-- The directional ports of a `node3d`. -/
inductive Dir3 where
  | north | east | south | west | up | down
deriving DecidableEq

instance : Fintype Dir3 where
  elems := {.north, .east, .south, .west, .up, .down}
  complete d := by cases d <;> decide

/-- The fields of an address in a three-dimensional mesh. -/
structure Addr3d where
  x : BitVec 8
  y : BitVec 8
  z : BitVec 8
  elem : BitVec 8
  off : BitVec 32

/-- `mesh3d_addr`. -/
def mesh3dAddr (x y z elem : BitVec 8) (off : BitVec 32) : Word :=
  off.zeroExtend 64 ||| elem.zeroExtend 64 <<< 32 ||| x.zeroExtend 64 <<< 40 |||
    y.zeroExtend 64 <<< 48 ||| z.zeroExtend 64 <<< 56

/-- `addr_mesh3d`. -/
def addrMesh3d (addr : Word) : Addr3d where
  off := (addr &&& 0xffffffff).truncate 32
  elem := (addr >>> 32 &&& 0xff).truncate 8
  x := (addr >>> 40 &&& 0xff).truncate 8
  y := (addr >>> 48 &&& 0xff).truncate 8
  z := (addr >>> 56 &&& 0xff).truncate 8

/-- `addr_mesh3d` reads back what `mesh3d_addr` wrote. -/
theorem addrMesh3d_mesh3dAddr (x y z elem : BitVec 8) (off : BitVec 32) :
    addrMesh3d (mesh3dAddr x y z elem off) = ⟨x, y, z, elem, off⟩ := by
  unfold addrMesh3d mesh3dAddr
  congr 1 <;> rw [truncate_and (by decide)] <;> ext i hi <;> simp <;> grind

namespace Node3d

/-- `struct sel_helper`. -/
structure SelHelper where
  x : BitVec 8
  y : BitVec 8
  z : BitVec 8
  elem : BitVec 8

/-- `north_sel`. -/
def northSel (helper : SelHelper) (pkt : Packet) : Bool :=
  let a := addrMesh3d pkt.dst
  a.y > helper.y

/-- `south_sel`. -/
def southSel (helper : SelHelper) (pkt : Packet) : Bool :=
  let a := addrMesh3d pkt.dst
  a.y < helper.y

/-- `east_sel`. -/
def eastSel (helper : SelHelper) (pkt : Packet) : Bool :=
  let a := addrMesh3d pkt.dst
  a.y == helper.y && a.x > helper.x

/-- `west_sel`. -/
def westSel (helper : SelHelper) (pkt : Packet) : Bool :=
  let a := addrMesh3d pkt.dst
  a.y == helper.y && a.x < helper.x

/-- `up_sel`. -/
def upSel (helper : SelHelper) (pkt : Packet) : Bool :=
  let a := addrMesh3d pkt.dst
  a.y == helper.y && a.x == helper.x && a.z > helper.z

/-- `down_sel`. -/
def downSel (helper : SelHelper) (pkt : Packet) : Bool :=
  let a := addrMesh3d pkt.dst
  a.y == helper.y && a.x == helper.x && a.z < helper.z

/-- `elem_sel`. -/
def elemSel (helper : SelHelper) (pkt : Packet) : Bool :=
  let a := addrMesh3d pkt.dst
  a.x == helper.x && a.y == helper.y && a.z == helper.z && a.elem == helper.elem

/-- The selector handed to each directional `propagate`. -/
def dirSel (helper : SelHelper) : Dir3 → Packet → Bool
  | .north => northSel helper
  | .east => eastSel helper
  | .south => southSel helper
  | .west => westSel helper
  | .up => upSel helper
  | .down => downSel helper

/-- The lists `north`, `east`, `south`, `west`, `up` and `down` of `node3d_clock`, behind `r`. -/
def inputs : Dir3 → List Dir3
  | .north => [.east, .south, .west, .up, .down]
  | .east => [.north, .south, .west, .up, .down]
  | .south => [.north, .east, .west, .up, .down]
  | .west => [.north, .east, .south, .up, .down]
  | .up => [.north, .east, .west, .south, .down]
  | .down => [.north, .east, .west, .south, .up]

/-- The loop of `node3d_receive`; running out of ports is the `abort`. -/
def arrive {N : Type} [DecidableEq N] {n : Nat} (ports : Port Dir3 n → Option (Comp N))
    (sender : Comp N) (now : Word) (pkt : Packet) :
    List (Port Dir3 n) → Option (Port Dir3 n × Packet)
  | [] => none
  | p :: rest =>
      if some sender ≠ ports p then arrive ports sender now pkt rest
      else
        let pkt := if p.isElem then { pkt with timestamp := now } else pkt
        some (p, pkt)

/-- `node3d_clock` and `node3d_receive` as a kind of mesh node; `helper c` holds the coordinates
of node `c`. -/
def kind {N : Type} [DecidableEq N] (helper : N → SelHelper) : NodeKind N Dir3 where
  dirs := [.north, .east, .south, .west, .up, .down]
  inputs := inputs
  dirSel c := dirSel (helper c)
  elemSel c i := elemSel { helper c with elem := BitVec.ofNat 8 i }
  arrive := arrive

/-- `node3d_receive` stamps a packet at the port it finds, if that is an element port. -/
theorem kind_stamps {N : Type} [DecidableEq N] (helper : N → SelHelper) :
    Mesh.StampsAtElements (kind helper) := by
  intro n ports sender now pkt l p hfind
  induction l with
  | nil => simp at hfind
  | cons q rest ih =>
      simp only [kind, arrive]
      by_cases hq : ports q = some sender
      · rw [List.find?_cons_of_pos (by simpa using hq), Option.some.injEq] at hfind
        subst hfind
        simp [hq]
      · rw [List.find?_cons_of_neg (by simpa using hq)] at hfind
        rw [if_pos (Ne.symm hq)]
        exact ih hfind

theorem mem_inputs {d d' : Dir3} (h : d' ≠ d) : d' ∈ inputs d := by
  cases d <;> cases d' <;> simp_all [inputs]

theorem mem_dirs (d : Dir3) :
    d ∈ [Dir3.north, Dir3.east, Dir3.south, Dir3.west, Dir3.up, Dir3.down] := by
  cases d <;> simp

end Node3d

end Gran
