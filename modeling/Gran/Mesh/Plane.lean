import Gran.Foundations.Fold
import Gran.Mesh.Node2d
import Gran.Mesh.Node3d

/-!
# The plane in the three-dimensional mesh

A grid built twice, from `node2d` nodes and from `node3d` nodes in the plane `z = 0`. `liftState` is
the state of the second grid that corresponds to a state of the first: the same packets, with the
two-dimensional destination addresses rewritten, in the same registers. Every operation of the nodes
commutes with it (`receive_lift`, `clockOutput_lift`, `propagateTo_lift`), so the two grids stay in
lockstep on every run (`node2d_node3d`).
-/

namespace Gran

open Mesh

/-- A node of an `X` by `Y` grid. -/
structure Coord2 (X Y : Nat) where
  x : Fin X
  y : Fin Y
deriving DecidableEq

/-- The size of a grid, the element counts of its nodes, at most 255, and the element ports in use.
-/
structure Grid2d where
  X : Nat
  Y : Nat
  hX : X ≤ 256
  hY : Y ≤ 256
  elems : Coord2 X Y → BitVec 8
  connected : Coord2 X Y → Nat → Bool

/-- A direction of the plane. -/
def liftDir : Dir2 → Dir3
  | .north => .north
  | .east => .east
  | .south => .south
  | .west => .west

/-- The direction of the plane that a direction is. -/
def planeDir : Dir3 → Option Dir2
  | .north => some .north
  | .east => some .east
  | .south => some .south
  | .west => some .west
  | .up => none
  | .down => none

namespace Grid2d

variable (g : Grid2d)

/-- The nodes of the grid. -/
abbrev Node := Coord2 g.X g.Y

/-- The neighbour of a node, `none` beyond the boundary. -/
def link (c : g.Node) : Dir2 → Option g.Node
  | .north => if h : c.y + 1 < g.Y then some { c with y := ⟨c.y + 1, h⟩ } else none
  | .south => if h : 0 < c.y.val then some { c with y := ⟨c.y - 1, by omega⟩ } else none
  | .east => if h : c.x + 1 < g.X then some { c with x := ⟨c.x + 1, h⟩ } else none
  | .west => if h : 0 < c.x.val then some { c with x := ⟨c.x - 1, by omega⟩ } else none

/-- The coordinates `create_mesh_node2d` stores in a node. -/
def helper2d (c : g.Node) : Node2d.SelHelper := ⟨BitVec.ofNat 8 c.x, BitVec.ofNat 8 c.y, 0⟩

/-- The coordinates `create_mesh_node3d` stores in a node of the plane `z = 0`. -/
def helper3d (c : g.Node) : Node3d.SelHelper := ⟨BitVec.ofNat 8 c.x, BitVec.ofNat 8 c.y, 0, 0⟩

/-- The grid of `node2d` nodes. -/
abbrev mesh2d : Mesh g.Node Dir2 where
  toNodeKind := Node2d.kind g.helper2d
  elems c := (g.elems c).toNat
  ports c
    | .elem i => if g.connected c i then some (.elem c i) else none
    | .dir d => (g.link c d).map .node

/-- The grid of `node3d` nodes, with the ports up and down left unconnected. -/
abbrev mesh3d : Mesh g.Node Dir3 where
  toNodeKind := Node3d.kind g.helper3d
  elems c := (g.elems c).toNat
  ports c
    | .elem i => if g.connected c i then some (.elem c i) else none
    | .dir d => (planeDir d).bind fun d => (g.link c d).map .node

end Grid2d

/-! ## Corresponding states -/

variable {n : Nat}

/-- The port of a `node3d` that corresponds to a port of a `node2d`. -/
def liftPort : Port Dir2 n → Port Dir3 n
  | .elem i => .elem i
  | .dir d => .dir (liftDir d)

/-- The port of a `node2d` that a port of a `node3d` corresponds to. -/
def planePort : Port Dir3 n → Option (Port Dir2 n)
  | .elem i => some (.elem i)
  | .dir d => (planeDir d).map .dir

/-- The address in the plane `z = 0` of what a two-dimensional address names. -/
def liftAddr (addr : Word) : Word :=
  let a := addrMesh2d addr
  mesh3dAddr a.x a.y 0 (a.elem.truncate 8) a.off

/-- The same packet on its way in the plane. -/
def liftPacket (pkt : Packet) : Packet := { pkt with dst := liftAddr pkt.dst }

/-- The corresponding register. -/
def liftReg (r : Reg) : Reg := ⟨liftPacket r.pkt, r.busy⟩

/-- The corresponding registers of a node; those of the ports up and down are as created. -/
def liftRegs (regs : Port Dir2 n → Reg) (p : Port Dir3 n) : Reg :=
  match planePort p with
  | some q => liftReg (regs q)
  | none => .free

/-- The corresponding node. -/
def liftNode (node : MeshNode Dir2 n) : MeshNode Dir3 n :=
  ⟨node.timestamp, liftRegs node.inp, liftRegs node.out⟩

namespace Grid2d

variable {g : Grid2d}

/-- The corresponding delivery. -/
def liftDelivery (d : Delivery g.mesh2d) : Delivery g.mesh3d :=
  ⟨d.node, liftPort d.port, d.comp, liftPacket d.pkt⟩

/-- The corresponding state. -/
def liftState (s : MeshState g.mesh2d) : MeshState g.mesh3d :=
  ⟨fun c => liftNode (s.nodes c), s.delivered.map liftDelivery⟩

end Grid2d

/-! ## Addresses and selectors -/

/-- The element that a packet names is one a three-dimensional address can name. -/
def ElemFits (pkt : Packet) : Prop := (addrMesh2d pkt.dst).elem.toNat < 256

instance (pkt : Packet) : Decidable (ElemFits pkt) := inferInstanceAs (Decidable (_ < _))

/-- The fields of a lifted address are those of the address, at height 0. -/
theorem addrMesh3d_liftAddr (addr : Word) :
    addrMesh3d (liftAddr addr) = ⟨(addrMesh2d addr).x, (addrMesh2d addr).y, 0,
      (addrMesh2d addr).elem.truncate 8, (addrMesh2d addr).off⟩ :=
  addrMesh3d_mesh3dAddr ..

/-- A free register stays free. -/
theorem liftReg_free : liftReg .free = .free := by
  have haddr : liftAddr 0 = 0 := by decide
  rw [liftReg, liftPacket, Reg.free, Packet.zero, haddr]

/-- An element that fits is cut off without loss. -/
theorem elem_eq_iff {elem : BitVec 16} (helem : elem.toNat < 256) {i : Nat} (hi : i < 256) :
    (elem.truncate 8 == BitVec.ofNat 8 i) = (elem == BitVec.ofNat 16 i) := by
  rw [Bool.eq_iff_iff, beq_iff_eq, beq_iff_eq]
  constructor
  · intro h
    have hnat := congrArg BitVec.toNat h
    apply BitVec.eq_of_toNat_eq
    simp only [BitVec.truncate, BitVec.toNat_setWidth, BitVec.toNat_ofNat] at hnat ⊢
    omega
  · rintro rfl
    apply BitVec.eq_of_toNat_eq
    simp only [BitVec.truncate, BitVec.toNat_setWidth, BitVec.toNat_ofNat]
    omega

namespace Grid2d

variable {g : Grid2d} {c : g.Node}

/-- Corresponding outputs want corresponding packets. -/
theorem wants_lift (p : Port Dir2 (g.elems c).toNat) {pkt : Packet} (hpkt : ElemFits pkt) :
    g.mesh3d.wants c (liftPort p) (liftPacket pkt) = g.mesh2d.wants c p pkt := by
  cases p with
  | elem i =>
      have hi : i.val < 256 := i.isLt.trans (g.elems c).isLt
      show Node3d.elemSel { g.helper3d c with elem := BitVec.ofNat 8 i } (liftPacket pkt) =
        Node2d.elemSel { g.helper2d c with elem := BitVec.ofNat 16 i } pkt
      simp only [Node3d.elemSel, Node2d.elemSel, liftPacket, addrMesh3d_liftAddr, helper3d,
        helper2d,
        elem_eq_iff hpkt hi]
      simp
  | dir d =>
      cases d <;> simp only [wants, liftPort, liftDir, mesh3d, Node3d.kind, Node2d.kind,
        Node3d.dirSel, Node2d.dirSel, Node3d.northSel, Node2d.northSel, Node3d.southSel,
        Node2d.southSel, Node3d.eastSel, Node2d.eastSel, Node3d.westSel, Node2d.westSel, liftPacket,
        addrMesh3d_liftAddr, helper3d, helper2d]

/-- No packet of the plane wants to leave it. -/
theorem wants_updown {d : Dir3} (hd : planeDir d = none) (pkt : Packet) :
    g.mesh3d.wants c (.dir d) (liftPacket pkt) = false := by
  cases d with
  | up | down =>
      simp [wants, Node3d.kind, Node3d.dirSel, Node3d.upSel, Node3d.downSel, liftPacket,
        addrMesh3d_liftAddr, helper3d]
  | north | east | south | west => cases hd

end Grid2d

/-! ## Registers -/

@[simp] theorem planePort_liftPort (p : Port Dir2 n) : planePort (liftPort p) = some p := by
  cases p with
  | elem i => rfl
  | dir d => cases d <;> rfl

/-- A port corresponds to one of the plane, or is up or down. -/
theorem planePort_cases (p : Port Dir3 n) :
    (∃ q, p = liftPort q) ∨ ∃ d, p = .dir d ∧ planeDir d = none := by
  cases p with
  | elem i => exact Or.inl ⟨.elem i, rfl⟩
  | dir d =>
      cases d with
      | north => exact Or.inl ⟨.dir .north, rfl⟩
      | east => exact Or.inl ⟨.dir .east, rfl⟩
      | south => exact Or.inl ⟨.dir .south, rfl⟩
      | west => exact Or.inl ⟨.dir .west, rfl⟩
      | up => exact Or.inr ⟨.up, rfl, rfl⟩
      | down => exact Or.inr ⟨.down, rfl, rfl⟩

@[simp] theorem liftRegs_liftPort (regs : Port Dir2 n → Reg) (p : Port Dir2 n) :
    liftRegs regs (liftPort p) = liftReg (regs p) := by
  rw [liftRegs, planePort_liftPort]

/-- The up and down registers are free. -/
theorem liftRegs_updown (regs : Port Dir2 n → Reg) {d : Dir3} (hd : planeDir d = none) :
    liftRegs regs (.dir d) = .free := by
  simp [liftRegs, planePort, hd]

/-- Writing a register is writing the corresponding one. -/
theorem liftRegs_update (regs : Port Dir2 n → Reg) (p : Port Dir2 n) (r : Reg) :
    liftRegs (Function.update regs p r) =
      Function.update (liftRegs regs) (liftPort p) (liftReg r) := by
  funext q
  rcases planePort_cases q with ⟨q, rfl⟩ | ⟨d, rfl, hd⟩
  · have hinj : liftPort q = liftPort p → q = p := fun h => by
      have := congrArg planePort h
      simpa using this
    by_cases h : q = p
    · subst h
      simp
    · rw [liftRegs_liftPort, Function.update_of_ne h, Function.update_of_ne (mt hinj h),
        liftRegs_liftPort]
  · have hne : (.dir d : Port Dir3 n) ≠ liftPort p := by
      intro h
      have := congrArg planePort h
      rw [planePort_liftPort] at this
      simp [planePort, hd] at this
    rw [Function.update_of_ne hne, liftRegs_updown _ hd, liftRegs_updown _ hd]

/-- `place_reg` on lifted registers. -/
theorem placeReg_lift (r : Reg) (pkt : Packet) :
    placeReg (liftReg r) (liftPacket pkt) = ((placeReg r pkt).1, liftReg (placeReg r pkt).2) := by
  cases h : r.busy <;> simp [placeReg, liftReg, h]

/-- `copy_reg` on lifted registers. -/
theorem copyReg_lift (r r' : Reg) :
    copyReg (liftReg r) (liftReg r') =
      (copyReg r r').map fun x => (x.1, liftReg x.2.1, liftReg x.2.2) := by
  cases h : r.busy <;> cases h' : r'.busy <;> simp [copyReg, liftReg, h, h']

/-- A `propagate` over corresponding candidates, with more that are free, does the same. -/
theorem propagate_lift (out : Reg) (regs : Port Dir2 n → Reg)
    (candidates : List (Option (Port Dir2 n)))
    (sel sel' : Reg → Bool) (hsel : ∀ p, sel' (liftReg (regs p)) = sel (regs p))
    (idle : List (Option (Port Dir3 n)))
    (hidle : ∀ p, some p ∈ idle → (liftRegs regs p).busy = false) :
    propagate (liftReg out) (liftRegs regs) (candidates.map (Option.map liftPort) ++ idle) sel' =
      (propagate out regs candidates sel).map fun x => (liftReg x.1, liftRegs x.2) := by
  have hscan : oldest (liftRegs regs) sel' none (candidates.map (Option.map liftPort) ++ idle) =
      (oldest regs sel none candidates).map liftPort := by
    rw [oldest_append]
    have hmap := oldest_map regs sel (liftRegs regs) sel'
      liftPort (fun q => by simp [liftReg]) (fun q => by simp [liftReg, liftPacket])
      (fun q => by simpa using hsel q) none candidates
    rw [Option.map_none] at hmap
    rw [hmap]
    exact oldest_unwilling _ fun p hp => by rw [hidle p hp, Bool.false_and]
  unfold propagate
  rw [hscan]
  cases oldest regs sel none candidates with
  | none => rfl
  | some q =>
      simp only [Option.map_some, liftRegs_liftPort, copyReg_lift]
      cases copyReg out (regs q) with
      | none => rfl
      | some x => simp [liftRegs_update]

/-! ## Operations -/

namespace Grid2d

variable {g : Grid2d} {c : g.Node}

/-- Writing a node, lifted. -/
theorem setNode_lift (s : MeshState g.mesh2d) (node : MeshNode Dir2 (g.elems c).toNat) :
    liftState (setNode s c node) = setNode (liftState s) c (liftNode node) := by
  unfold setNode liftState
  congr 1
  funext c'
  show liftNode (Function.update s.nodes c node c') =
    Function.update (fun c => liftNode (s.nodes c)) c (liftNode node) c'
  by_cases h : c' = c
  · subst h
    simp
  · rw [Function.update_of_ne h, Function.update_of_ne h]

/-- Writing an input register, lifted. -/
theorem setInp_lift (s : MeshState g.mesh2d) (p : Port Dir2 (g.elems c).toNat) (r : Reg) :
    liftState (setInp s c p r) = setInp (liftState s) c (liftPort p) (liftReg r) := by
  rw [setInp, setNode_lift, liftNode, liftRegs_update]
  rfl

/-- Writing an output register, lifted. -/
theorem setOut_lift (s : MeshState g.mesh2d) (p : Port Dir2 (g.elems c).toNat) (r : Reg) :
    liftState (setOut s c p r) = setOut (liftState s) c (liftPort p) (liftReg r) := by
  rw [setOut, setNode_lift, liftNode, liftRegs_update]
  rfl

/-- Counting a clock, lifted. -/
theorem tick_lift (s : MeshState g.mesh2d) : liftState (tick s c) = tick (liftState s) c := by
  rw [tick, setNode_lift]
  rfl

/-- A new grid, lifted. -/
theorem init_lift : liftState (.init g.mesh2d) = .init g.mesh3d := by
  unfold MeshState.init liftState liftNode
  congr 1
  funext c
  congr 1 <;> funext p <;> rcases planePort_cases p with ⟨q, rfl⟩ | ⟨d, rfl, hd⟩ <;>
    first
    | rw [liftRegs_liftPort, liftReg_free]
    | rw [liftRegs_updown _ hd]

/-- The ports of a `node3d` are those of the `node2d`, and up and down. -/
theorem portList_lift : g.mesh3d.portList c =
    (g.mesh2d.portList c).map liftPort ++ [.dir .up, .dir .down] := by
  simp [portList, Node3d.kind, Node2d.kind, liftPort, liftDir, Function.comp_def]

/-- A `node3d` fills its outputs in the order of the `node2d`, with up and down in between. -/
theorem propagateOrder_lift : g.mesh3d.propagateOrder c =
    ([.dir .north, .dir .east, .dir .south, .dir .west] : List (Port Dir2 (g.elems c).toNat)).map
        liftPort ++ ([.dir .up, .dir .down] ++
      ((List.finRange (g.elems c).toNat).map .elem : List (Port Dir2 (g.elems c).toNat)).map
        liftPort) := by
  simp [propagateOrder, Node3d.kind, liftPort, liftDir, Function.comp_def]

/-- The candidates of corresponding outputs correspond, up to those that stay free. -/
theorem candidates_lift (r : Option (Port Dir2 (g.elems c).toNat))
    (p : Port Dir2 (g.elems c).toNat) :
    g.mesh3d.candidates c (r.map liftPort) (liftPort p) =
      (g.mesh2d.candidates c r p).map (Option.map liftPort) ++
        [some (.dir .up), some (.dir .down)] := by
  cases p with
  | elem i => rfl
  | dir d => cases d <;> rfl

/-- The lifted ports are connected as the ports are. -/
theorem ports_lift (p : Port Dir2 (g.elems c).toNat) :
    g.mesh3d.ports c (liftPort p) = g.mesh2d.ports c p := by
  cases p with
  | elem i => rfl
  | dir d => cases d <;> rfl

/-- A `node3d` finds the port that corresponds to the one a `node2d` finds. -/
theorem arrive_lift (sender : Comp g.Node) (now : Word) (pkt : Packet)
    (l : List (Port Dir2 (g.elems c).toNat)) :
    Node3d.arrive (g.mesh3d.ports c) sender now (liftPacket pkt)
        (l.map liftPort ++ [.dir .up, .dir .down]) =
      (Node2d.arrive (g.mesh2d.ports c) sender now pkt l).map
        fun x => (liftPort x.1, liftPacket x.2) := by
  induction l with
  | nil => simp [Node3d.arrive, Node2d.arrive, planeDir]
  | cons p l ih =>
      rw [List.map_cons, List.cons_append, Node3d.arrive, Node2d.arrive, ports_lift]
      split
      · exact ih
      · cases p <;> rfl

/-- Receiving a packet, lifted. -/
theorem receive_lift (s : MeshState g.mesh2d) (sender : Comp g.Node) (pkt : Packet) :
    receive (liftState s) c sender (liftPacket pkt) =
      (receive s c sender pkt).map fun x => (x.1, liftState x.2) := by
  have harrive := arrive_lift (c := c) sender (s.nodes c).timestamp pkt (g.mesh2d.portList c)
  rw [← portList_lift] at harrive
  show ((Node3d.arrive (g.mesh3d.ports c) sender (s.nodes c).timestamp (liftPacket pkt)
    (g.mesh3d.portList c)).bind _) = Option.map _ ((Node2d.arrive (g.mesh2d.ports c) sender
      (s.nodes c).timestamp pkt (g.mesh2d.portList c)).bind _)
  rw [harrive]
  cases Node2d.arrive (g.mesh2d.ports c) sender (s.nodes c).timestamp pkt (g.mesh2d.portList c) with
  | none => rfl
  | some x =>
      obtain ⟨p, pkt'⟩ := x
      have hinp : ((liftState s).nodes c).inp (liftPort p) = liftReg ((s.nodes c).inp p) :=
        liftRegs_liftPort _ _
      simp only [Option.map_some, Option.bind_some, Option.pure_def, hinp, placeReg_lift,
        setInp_lift]

/-- Sending a packet, lifted. -/
theorem send_lift (answer : Comp g.Node → Stat) (s : MeshState g.mesh2d)
    (p : Port Dir2 (g.elems c).toNat) (pkt : Packet) :
    send answer (liftState s) c (liftPort p) (liftPacket pkt) =
      (send answer s c p pkt).map fun x => (x.1, liftState x.2) := by
  unfold send
  rw [ports_lift]
  cases hport : g.mesh2d.ports c p with
  | none => rfl
  | some comp =>
      cases comp with
      | node c' => exact receive_lift s (.node c) pkt
      | elem c' i =>
          simp only [Option.map_some, Option.some.injEq, Prod.mk.injEq, true_and]
          split
          · rfl
          · rfl

/-- Serving an output, lifted. -/
theorem clockOutput_lift (answer : Comp g.Node → Stat) (s : MeshState g.mesh2d)
    (p : Port Dir2 (g.elems c).toNat) :
    clockOutput answer c (liftState s) (liftPort p) = (clockOutput answer c s p).map liftState := by
  have hout : ∀ s : MeshState g.mesh2d,
      ((liftState s).nodes c).out (liftPort p) = liftReg ((s.nodes c).out p) := fun s =>
    liftRegs_liftPort _ _
  unfold clockOutput
  rw [hout]
  cases hbusy : ((s.nodes c).out p).busy with
  | false => simp [liftReg, hbusy]
  | true =>
      have hsend := send_lift answer s p ((s.nodes c).out p).pkt
      simp only [liftReg, hbusy, if_true, hsend]
      cases send answer s c p ((s.nodes c).out p).pkt with
      | none => rfl
      | some x =>
          obtain ⟨ret, s'⟩ := x
          simp only [Option.map_some, Option.bind_eq_bind, Option.bind_some, Option.pure_def,
            Option.some.injEq]
          split
          · rfl
          · rw [setOut_lift, hout]
            rfl

/-- The outputs up and down are never busy. -/
theorem clockOutput_updown (answer : Comp g.Node → Stat) (s : MeshState g.mesh2d) {d : Dir3}
    (hd : planeDir d = none) :
    clockOutput answer c (liftState s) (.dir d) = some (liftState s) := by
  have hout : ((liftState s).nodes c).out (.dir d) = .free := liftRegs_updown _ hd
  rw [clockOutput, hout]
  rfl

/-- The oldest element input, lifted. -/
theorem oldestElem_lift (node : MeshNode Dir2 n) :
    oldestElem (liftNode node) = (oldestElem node).map liftPort := by
  have hmap := oldest_map node.inp (fun _ => true) (liftRegs node.inp) (fun _ => true) liftPort
    (fun q => by simp [liftReg])
    (fun q => by simp [liftReg, liftPacket]) (fun _ => rfl) none
    ((List.finRange n).map fun i => some (.elem i))
  rw [List.map_map] at hmap
  exact hmap

/-- An output takes the same packet in both grids. -/
theorem propagateTo_lift (s : MeshState g.mesh2d) (hs : Holds ElemFits s)
    (r : Option (Port Dir2 (g.elems c).toNat)) (p : Port Dir2 (g.elems c).toNat) :
    propagateTo c (r.map liftPort) (liftState s) (liftPort p) =
      (propagateTo c r s p).map liftState := by
  have hout : ((liftState s).nodes c).out (liftPort p) = liftReg ((s.nodes c).out p) :=
    liftRegs_liftPort _ _
  have hprop := propagate_lift ((s.nodes c).out p) (s.nodes c).inp (g.mesh2d.candidates c r p)
    (fun reg => g.mesh2d.wants c p reg.pkt) (fun reg => g.mesh3d.wants c (liftPort p) reg.pkt)
    (fun q => wants_lift p (hs c q).1) [some (.dir .up), some (.dir .down)] (by
      intro q hq
      rcases List.mem_cons.1 hq with hq | hq
      · cases hq
        rfl
      · cases List.mem_singleton.1 hq
        rfl)
  unfold propagateTo
  rw [hout, candidates_lift, show ((liftState s).nodes c).inp = liftRegs (s.nodes c).inp from rfl,
    hprop]
  cases propagate ((s.nodes c).out p) (s.nodes c).inp (g.mesh2d.candidates c r p)
      fun reg => g.mesh2d.wants c p reg.pkt with
  | none => rfl
  | some x =>
      simp only [Option.map_some, Option.bind_eq_bind, Option.bind_some, Option.pure_def,
        setNode_lift, liftNode, liftRegs_update]
      rfl

/-- No packet is propagated to the outputs up and down. -/
theorem propagateTo_updown (s : MeshState g.mesh2d) (r : Option (Port Dir2 (g.elems c).toNat))
    {d : Dir3} (hd : planeDir d = none) :
    propagateTo c (r.map liftPort) (liftState s) (.dir d) = some (liftState s) := by
  have hscan :
      oldest ((liftState s).nodes c).inp (fun reg => g.mesh3d.wants c (.dir d) reg.pkt) none
      (g.mesh3d.candidates c (r.map liftPort) (.dir d)) = none := by
    refine oldest_unwilling none fun p _ => ?_
    rcases planePort_cases p with ⟨q, rfl⟩ | ⟨d', rfl, hd'⟩
    · rw [show ((liftState s).nodes c).inp (liftPort q) = liftReg ((s.nodes c).inp q) from
        liftRegs_liftPort _ _]
      simp only [liftReg, wants_updown hd, Bool.and_false]
    · rw [show ((liftState s).nodes c).inp (.dir d') = .free from liftRegs_updown _ hd']
      rfl
  unfold propagateTo propagate
  rw [hscan]
  simp [setNode]

/-! ## A clock -/

/-- A `node2d` leaves the address of a packet alone. -/
theorem arrive_elemFits (sender : Comp g.Node) (now : Word) {pkt : Packet}
    {x : Port Dir2 (g.elems c).toNat × Packet} (hpkt : ElemFits pkt)
    (h : g.mesh2d.arrive (g.mesh2d.ports c) sender now pkt (g.mesh2d.portList c) = some x) :
    ElemFits x.2 := by
  have hdst : ∀ l, Node2d.arrive (g.mesh2d.ports c) sender now pkt l = some x →
      x.2.dst = pkt.dst := by
    intro l hl
    induction l with
    | nil => cases hl
    | cons p l ih =>
        rw [Node2d.arrive] at hl
        split at hl
        · exact ih hl
        · cases hl
          dsimp only
          split <;> rfl
  rw [ElemFits, hdst _ h]
  exact hpkt

/-- Serving all outputs, lifted. -/
theorem clockOutputs_lift (answer : Comp g.Node → Stat) {s : MeshState g.mesh2d}
    (hs : Holds ElemFits s) :
    clockOutputs answer c (liftState s) = (clockOutputs answer c s).map liftState := by
  have hloop := Fold.foldlM_commute (l := g.mesh2d.portList c) (Holds ElemFits) liftState liftPort
    (fun s p _ hs => ⟨clockOutput_lift answer s p, fun s' h =>
      clockOutput_holds arrive_elemFits hs h⟩) hs
  unfold clockOutputs
  rw [portList_lift, List.foldlM_append, hloop]
  cases (g.mesh2d.portList c).foldlM (clockOutput answer c) s with
  | none => rfl
  | some t =>
      simp [List.foldlM_cons, clockOutput_updown answer t (d := .up) rfl,
        clockOutput_updown answer t (d := .down) rfl]

/-- The `propagate` calls of a clock do the same in both grids. -/
theorem propagateAll_lift {s : MeshState g.mesh2d} (hs : Holds ElemFits s)
    (r : Option (Port Dir2 (g.elems c).toNat)) :
    (g.mesh3d.propagateOrder c).foldlM (propagateTo c (r.map liftPort)) (liftState s) =
      ((g.mesh2d.propagateOrder c).foldlM (propagateTo c r) s).map liftState := by
  have hloop : ∀ (l : List (Port Dir2 (g.elems c).toNat)) {s}, Holds ElemFits s →
      (l.map liftPort).foldlM (propagateTo c (r.map liftPort)) (liftState s) =
        (l.foldlM (propagateTo c r) s).map liftState := fun l s hs =>
    Fold.foldlM_commute (Holds ElemFits) liftState liftPort
      (fun s p _ hs => ⟨propagateTo_lift s hs r p, fun s' h => propagateTo_holds hs h⟩) hs
  have horder : g.mesh2d.propagateOrder c =
      [.dir .north, .dir .east, .dir .south, .dir .west] ++ (List.finRange _).map .elem := rfl
  rw [propagateOrder_lift, horder, List.foldlM_append, List.foldlM_append, hloop _ hs]
  cases hdirs : ([.dir .north, .dir .east, .dir .south, .dir .west] :
      List (Port Dir2 (g.elems c).toNat)).foldlM (propagateTo c r) s with
  | none => rfl
  | some t =>
      have ht : Holds ElemFits t :=
        Fold.foldlM_keep (Holds ElemFits) (fun s p s' _ hs h => propagateTo_holds hs h) hs hdirs
      simp only [Option.map_some, Option.bind_eq_bind, Option.bind_some, List.foldlM_append,
        List.foldlM_cons, List.foldlM_nil, propagateTo_updown t r (d := .up) rfl,
        propagateTo_updown t r (d := .down) rfl, Option.pure_def]
      exact hloop _ ht

/-- A clock does the same in both grids. -/
theorem clock_lift (answer : Comp g.Node → Stat) {s : MeshState g.mesh2d} (hs : Holds ElemFits s) :
    clock answer c (liftState s) = (clock answer c s).map liftState := by
  have htick : Holds ElemFits (tick s c) :=
    setNode_holds hs (fun p => (hs c p).1) fun p => (hs c p).2
  unfold clock
  rw [← tick_lift, clockOutputs_lift answer htick]
  cases hout : clockOutputs answer c (tick s c) with
  | none => rfl
  | some t =>
      have ht : Holds ElemFits t := clockOutputs_holds arrive_elemFits htick hout
      have helem : oldestElem ((liftState t).nodes c) = (oldestElem (t.nodes c)).map liftPort :=
        oldestElem_lift _
      simp only [Option.map_some, Option.bind_eq_bind, Option.bind_some, helem]
      exact propagateAll_lift ht _

end Grid2d

/-! ## Runs -/

namespace Mesh

variable {N D : Type} [DecidableEq N] [DecidableEq D]

/-- One step of a mesh, with the statuses of the injections so far, newest first. -/
def drive {m : Mesh N D} (s : List Stat × MeshState m) : Drive N → Option (List Stat × MeshState m)
  | .clock c answer => do
      let s' ← clock answer c s.2
      pure (s.1, s')
  | .inject c i pkt => do
      let (ret, s') ← receive s.2 c (.elem c i) pkt
      pure (ret :: s.1, s')

/-- A run from a mesh that was just created. -/
def driveAll (m : Mesh N D) (drives : List (Drive N)) : Option (List Stat × MeshState m) :=
  drives.foldlM drive ([], .init m)

end Mesh

namespace Drive

variable {N : Type}

/-- The same with the destination address of an injected packet mapped to the plane. -/
def lift : Drive N → Drive N
  | .clock c answer => .clock c answer
  | .inject c i pkt => .inject c i (liftPacket pkt)

/-- An injected packet names an element below 256. -/
def Fits : Drive N → Prop
  | .clock _ _ => True
  | .inject _ _ pkt => ElemFits pkt

end Drive

namespace Grid2d

variable {g : Grid2d}

/-- A drive, lifted: the same statuses, and the lift of the state. -/
theorem drive_lift (rets : List Stat) {s : MeshState g.mesh2d} (hs : Holds ElemFits s)
    {d : Drive g.Node} (hd : d.Fits) :
    drive (rets, liftState s) d.lift = (drive (rets, s) d).map (fun r => (r.1, liftState r.2)) ∧
      ∀ r, drive (rets, s) d = some r → Holds ElemFits r.2 := by
  cases d with
  | clock c answer =>
      refine ⟨?_, fun r h => ?_⟩
      · simp only [drive, Drive.lift, clock_lift answer hs]
        cases clock answer c s with
        | none => rfl
        | some s' => rfl
      · obtain ⟨s', hclock, h⟩ := Option.bind_eq_some_iff.1 h
        cases h
        exact clock_holds arrive_elemFits hs hclock
  | inject c i pkt =>
      refine ⟨?_, fun r h => ?_⟩
      · simp only [drive, Drive.lift, receive_lift]
        cases receive s c (.elem c i) pkt with
        | none => rfl
        | some x => rfl
      · obtain ⟨⟨ret, s'⟩, hrecv, h⟩ := Option.bind_eq_some_iff.1 h
        cases h
        exact receive_holds arrive_elemFits hs hd hrecv

/-- `node2d` and `node3d` are the same router in the plane: on every run with addresses whose
element is below 256, the grid of `node3d` nodes that is driven with the mapped addresses gets the
same statuses, and its registers, clock counts and deliveries correspond to those of the grid of
`node2d` nodes; it aborts exactly if that one does. -/
theorem node2d_node3d (g : Grid2d) (drives : List (Drive g.Node)) (hfits : ∀ d ∈ drives, d.Fits) :
    driveAll g.mesh3d (drives.map Drive.lift) =
      (driveAll g.mesh2d drives).map fun r => (r.1, liftState r.2) := by
  have hzero : ElemFits .zero := by decide
  have hinit : Holds ElemFits (MeshState.init g.mesh2d) := fun c p => ⟨hzero, hzero⟩
  have hrun := Fold.foldlM_commute (l := drives) (f := drive (m := g.mesh2d))
    (g := drive (m := g.mesh3d)) (fun r => Holds ElemFits r.2)
    (fun r => (r.1, liftState r.2)) Drive.lift
    (fun r d hd hs => drive_lift r.1 hs (hfits d hd)) (s := ([], .init g.mesh2d)) hinit
  rw [init_lift] at hrun
  exact hrun

/-- Two nodes, one north of the other, with one element each. -/
def pair : Grid2d where
  X := 1
  Y := 2
  hX := by decide
  hY := by decide
  elems _ := 1
  connected _ _ := true

/-- A node of the pair. -/
def pairNode (y : Fin 2) : pair.Node := ⟨⟨0, by decide⟩, y⟩

/-- A packet from the southern to the northern element. -/
def pairDrives : List (Drive pair.Node) :=
  [.inject (pairNode 0) 0 { Packet.zero with dst := mesh2dAddr 0 1 0 0 },
    .clock (pairNode 0) fun _ => .OK, .clock (pairNode 0) fun _ => .OK,
    .clock (pairNode 1) fun _ => .OK, .clock (pairNode 1) fun _ => .OK]

/-- `node2d_node3d` on the run that delivers it. -/
theorem node2d_node3d_pair :
    (driveAll pair.mesh2d pairDrives).map (fun r => (r.1, r.2.delivered.length)) = some ([.OK], 1) ∧
    driveAll pair.mesh3d (pairDrives.map Drive.lift) =
      (driveAll pair.mesh2d pairDrives).map fun r => (r.1, liftState r.2) := by
  have hfits : ∀ d ∈ pairDrives, d.Fits := by
    simp only [pairDrives, List.forall_mem_cons, Drive.Fits]
    exact ⟨by decide, trivial, trivial, trivial, trivial, fun d hd => nomatch hd⟩
  exact ⟨by decide +kernel, node2d_node3d pair pairDrives hfits⟩

end Grid2d

end Gran
