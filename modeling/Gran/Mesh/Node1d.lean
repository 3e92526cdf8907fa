import Gran.Mesh.Network

/-!
# The one-dimensional mesh node

`node1d.h` and `node1d.c`: the address format, the selectors, the candidate lists and the port
search of `receive`, which stamps a packet anew in every node that has elements.
-/

namespace Gran

/-- The directional ports of a `node1d`. -/
inductive Dir1 where
  | north | south
deriving DecidableEq

instance : Fintype Dir1 where
  elems := {.north, .south}
  complete d := by cases d <;> decide

/-- The fields of an address in a one-dimensional mesh. -/
structure Addr1d where
  cluster : BitVec 16
  elem : BitVec 16
  off : BitVec 32

/-- `mesh1d_addr`. -/
def mesh1dAddr (cluster elem : BitVec 16) (off : BitVec 32) : Word :=
  cluster.zeroExtend 64 <<< 48 ||| elem.zeroExtend 64 <<< 32 ||| off.zeroExtend 64

/-- `addr_mesh1d`. -/
def addrMesh1d (addr : Word) : Addr1d where
  off := (addr &&& 0xffffffff).truncate 32
  elem := (addr >>> 32 &&& 0xffff).truncate 16
  cluster := (addr >>> 48 &&& 0xffff).truncate 16

/-- `addr_mesh1d` reads back what `mesh1d_addr` wrote. -/
theorem addrMesh1d_mesh1dAddr (cluster elem : BitVec 16) (off : BitVec 32) :
    addrMesh1d (mesh1dAddr cluster elem off) = ⟨cluster, elem, off⟩ := by
  unfold addrMesh1d mesh1dAddr
  congr 1 <;> rw [truncate_and (by decide)] <;> ext i hi <;> simp <;> grind

namespace Node1d

/-- `struct sel_helper`. -/
structure SelHelper where
  cluster : BitVec 16
  elem : BitVec 16

/-- `north_sel`. -/
def northSel (helper : SelHelper) (pkt : Packet) : Bool :=
  let a := addrMesh1d pkt.dst
  a.cluster > helper.cluster

/-- `south_sel`. -/
def southSel (helper : SelHelper) (pkt : Packet) : Bool :=
  let a := addrMesh1d pkt.dst
  a.cluster < helper.cluster

/-- `elem_sel`. -/
def elemSel (helper : SelHelper) (pkt : Packet) : Bool :=
  let a := addrMesh1d pkt.dst
  a.cluster == helper.cluster && a.elem == helper.elem

/-- The selector handed to each directional `propagate`. -/
def dirSel (helper : SelHelper) : Dir1 → Packet → Bool
  | .north => northSel helper
  | .south => southSel helper

/-- The lists `north` and `south` of `node1d_clock`, behind `r`. -/
def inputs : Dir1 → List Dir1
  | .north => [.south]
  | .south => [.north]

/-- The loop of `node1d_receive`; running out of ports is the `abort`. The stamp of an iteration
that does not find the port stays on the packet. -/
def arrive {N : Type} [DecidableEq N] {n : Nat} (ports : Port Dir1 n → Option (Comp N))
    (sender : Comp N) (now : Word) (pkt : Packet) :
    List (Port Dir1 n) → Option (Port Dir1 n × Packet)
  | [] => none
  | p :: rest =>
      let pkt := if p.isElem then { pkt with timestamp := now } else pkt
      if some sender = ports p then some (p, pkt) else arrive ports sender now pkt rest

/-- `node1d_clock` and `node1d_receive` as a kind of mesh node; `cluster c` is the cluster of node
`c`. -/
def kind {N : Type} [DecidableEq N] (cluster : N → BitVec 16) : NodeKind N Dir1 where
  dirs := [.north, .south]
  inputs := inputs
  dirSel c := dirSel ⟨cluster c, 0⟩
  elemSel c i := elemSel ⟨cluster c, BitVec.ofNat 16 i⟩
  arrive := arrive

/-- Two packets that differ in the timestamp at most. -/
def Restamped (pkt pkt' : Packet) : Prop := ∃ t, pkt' = { pkt with timestamp := t }

theorem Restamped.refl (pkt : Packet) : Restamped pkt pkt := ⟨pkt.timestamp, rfl⟩

theorem Restamped.src {pkt pkt' : Packet} : Restamped pkt pkt' → pkt'.src = pkt.src := by
  rintro ⟨t, rfl⟩
  rfl

theorem Restamped.dst {pkt pkt' : Packet} : Restamped pkt pkt' → pkt'.dst = pkt.dst := by
  rintro ⟨t, rfl⟩
  rfl

/-- `node1d_receive` finds the first port connected to the sender, and changes nothing about the
packet but its timestamp. -/
theorem arrive_find {N : Type} [DecidableEq N] {n : Nat} {ports : Port Dir1 n → Option (Comp N)}
    {sender : Comp N} {now : Word} {pkt : Packet} {l : List (Port Dir1 n)} {p : Port Dir1 n}
    (hfind : l.find? (fun q => ports q = some sender) = some p) :
    ∃ pkt', arrive ports sender now pkt l = some (p, pkt') ∧ Restamped pkt pkt' := by
  induction l generalizing pkt with
  | nil => simp at hfind
  | cons q rest ih =>
      let stamped : Packet := if q.isElem then { pkt with timestamp := now } else pkt
      have hstamped : Restamped pkt stamped := by
        simp only [stamped]
        split
        · exact ⟨now, rfl⟩
        · exact Restamped.refl pkt
      by_cases hq : ports q = some sender
      · rw [List.find?_cons_of_pos (by simpa using hq), Option.some.injEq] at hfind
        subst hfind
        exact ⟨stamped, by simp [arrive, hq, stamped], hstamped⟩
      · rw [List.find?_cons_of_neg (by simpa using hq)] at hfind
        obtain ⟨pkt', hpkt', t', ht'⟩ := @ih stamped hfind
        obtain ⟨t, ht⟩ := hstamped
        refine ⟨pkt', ?_, t', ?_⟩
        · rw [arrive, if_neg (Ne.symm hq)]
          exact hpkt'
        · rw [ht', ht]

end Node1d

end Gran
