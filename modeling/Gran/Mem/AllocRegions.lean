import Gran.Mem.AllocAnswers
import Mathlib.Data.Set.Insert

/-!
# Which regions the region allocator keeps

What the allocator is for is a set of disjoint regions in each space, and `Live.answer` says how
such sets answer requests. `region_cmp` takes a stored region for a match if it contains the one
sought, ends included, and any other region for smaller or greater, also if the two overlap.
`idealAlloc_regions` says that the replies are those of the sets exactly as long as no request falls
between the two (`Fits`): a new region that overlaps a live one without lying in it, a removal of a
part of a live region, or a query for the end of a live region that the tree finds before a region
starting there.
-/

namespace Gran

open SearchTree

/-! ## Sets of regions -/

namespace Region

/-- The region contains the address. -/
def Contains (r : Region) (addr : Word) : Prop := r.start ≤ addr ∧ addr < r.stop

/-- The regions share an address. -/
def Overlaps (a b : Region) : Prop := ∃ addr, a.Contains addr ∧ b.Contains addr

/-- The second region lies in the first one. -/
def Covers (a b : Region) : Prop := a.start ≤ b.start ∧ b.stop ≤ a.stop

/-- The region is not empty. -/
def Proper (r : Region) : Prop := r.start < r.stop

/-- The first region ends before the second one starts. -/
def Before (a b : Region) : Prop := a.stop ≤ b.start

end Region

/-- A request to the allocator. -/
inductive AllocRequest where
  | new (space : Word) (region : Region)
  | rm (space : Word) (region : Region)
  | q (space addr : Word)
deriving DecidableEq

/-- The start of a region is less than its end. -/
def AllocRequest.Proper : AllocRequest → Prop
  | .new _ region => region.Proper
  | .rm _ region => region.Proper
  | .q _ _ => True

/-- The request a packet stands for. -/
def Packet.allocRequest (pkt : Packet) : Option AllocRequest :=
  let off : BitVec 32 := pkt.dst.truncate 32
  let n := pkt.allocIfNew
  let q := pkt.allocIfQ
  if off = ALLOC_IF_NEW then some (.new n.space ⟨n.start, n.stop⟩)
  else if off = ALLOC_IF_RM then some (.rm n.space ⟨n.start, n.stop⟩)
  else if off = ALLOC_IF_Q then some (.q q.space q.addr)
  else none

/-- `struct alloc_if_r`. -/
structure AllocIfR where
  r : BitVec 32
  start : Word
  stop : Word
deriving DecidableEq

/-- The data of a packet as a `struct alloc_if_r`. -/
def Packet.allocIfR (pkt : Packet) : AllocIfR :=
  ⟨(leWord pkt.byte 4).truncate 32, pkt.field 8, pkt.field 16⟩

/-- The live regions of each space. -/
abbrev Live := Word → Set Region

namespace Live

open Classical in
/-- How sets of regions answer a request. -/
noncomputable def answer (maxSpaces : Word) (live : Live) : AllocRequest → AllocIfR
  | .new space region =>
      if maxSpaces ≤ space then ⟨AllocIfRet.ERR_SPACE.code, 0, 0⟩
      else if ∃ l ∈ live space, l.Overlaps region then ⟨AllocIfRet.ERR_RANGE.code, 0, 0⟩
      else ⟨AllocIfRet.OK.code, region.start, region.stop⟩
  | .rm space region =>
      if maxSpaces ≤ space then ⟨AllocIfRet.ERR_SPACE.code, 0, 0⟩
      else if region ∈ live space then ⟨AllocIfRet.OK.code, 0, 0⟩
      else ⟨AllocIfRet.ERR_RANGE.code, 0, 0⟩
  | .q space addr =>
      if maxSpaces ≤ space then ⟨AllocIfRet.ERR_SPACE.code, 0, 0⟩
      else if h : ∃ l ∈ live space, l.Contains addr then
        ⟨AllocIfRet.OK.code, h.choose.start, h.choose.stop⟩
      else ⟨AllocIfRet.ERR_RANGE.code, 0, 0⟩

open Classical in
/-- How a request changes the sets of regions: that of its space, if at all. -/
noncomputable def next (maxSpaces : Word) (live : Live) : AllocRequest → Live
  | .new space region =>
      if maxSpaces ≤ space ∨ ∃ l ∈ live space, l.Overlaps region then live
      else Function.update live space (insert region (live space))
  | .rm space region =>
      if maxSpaces ≤ space then live
      else Function.update live space (live space \ {region})
  | .q _ _ => live

/-- The answers to requests, one after the other. -/
noncomputable def answers (maxSpaces : Word) (live : Live) : List AllocRequest → List AllocIfR
  | [] => []
  | request :: rest =>
      live.answer maxSpaces request :: answers maxSpaces (live.next maxSpaces request) rest

/-- The answers to requests with one more at the end. -/
theorem answers_append (maxSpaces : Word) (live : Live) (l : List AllocRequest)
    (request : AllocRequest) :
    live.answers maxSpaces (l ++ [request]) =
      live.answers maxSpaces l ++ [(l.foldl (next maxSpaces) live).answer maxSpaces request] := by
  induction l generalizing live with
  | nil => rfl
  | cons a l ih => exact congrArg (_ :: ·) (ih _)

end Live

/-! ## Comparing regions -/

namespace Region

/-- A region overlaps what lies in it. -/
theorem Covers.overlaps {a b : Region} (hb : b.Proper) (h : a.Covers b) : a.Overlaps b := by
  unfold Proper at hb
  obtain ⟨hstart, hstop⟩ := h
  exact ⟨b.start, ⟨hstart, by bv_omega⟩, by bv_omega, hb⟩

/-- Regions overlap if each starts before the other one ends. -/
theorem overlaps_iff {a b : Region} (ha : a.Proper) (hb : b.Proper) :
    a.Overlaps b ↔ a.start < b.stop ∧ b.start < a.stop := by
  unfold Proper at ha hb
  constructor
  · rintro ⟨addr, ⟨h1, h2⟩, h3, h4⟩
    exact ⟨by bv_omega, by bv_omega⟩
  · rintro ⟨h1, h2⟩
    by_cases hle : a.start ≤ b.start
    · exact ⟨b.start, ⟨hle, h2⟩, BitVec.le_refl _, hb⟩
    · exact ⟨a.start, ⟨BitVec.le_refl _, ha⟩, by bv_omega, h1⟩

/-- A region before another one shares no address with it. -/
theorem Before.not_contains {a b : Region} (h : a.Before b) {addr : Word} (ha : a.Contains addr) :
    ¬ b.Contains addr := by
  rintro ⟨hb, -⟩
  obtain ⟨-, ha⟩ := ha
  unfold Before at h
  bv_omega

end Region

/-- A stored region matches exactly if it covers the one sought. -/
theorem regionCmp_eq_zero {a b : Region} : regionCmp a b = 0 ↔ a.Covers b := by
  unfold regionCmp Region.Covers
  split
  case isTrue heq => exact ⟨fun _ => ⟨by bv_omega, by bv_omega⟩, fun _ => rfl⟩
  case isFalse hne =>
      split
      · exact ⟨fun h => absurd h (by decide), fun h => by bv_omega⟩
      · split
        · exact ⟨fun h => absurd h (by decide), fun h => by bv_omega⟩
        · exact ⟨fun _ => ⟨by bv_omega, by bv_omega⟩, fun _ => rfl⟩

/-- When the first region is greater. -/
theorem regionCmp_pos {a b : Region} : 0 < regionCmp a b ↔ b.start < a.start := by
  unfold regionCmp
  split
  case isTrue heq => exact ⟨fun h => absurd h (by decide), fun h => by bv_omega⟩
  case isFalse hne =>
      split
      · exact ⟨fun _ => by bv_omega, fun _ => by decide⟩
      · split
        · exact ⟨fun h => absurd h (by decide), fun h => by bv_omega⟩
        · exact ⟨fun h => absurd h (by decide), fun h => by bv_omega⟩

/-- The comparison follows the order of disjoint regions. -/
theorem directed_regionCmp {l : List Region} (hbefore : l.Pairwise Region.Before)
    (hproper : ∀ x ∈ l, x.Proper) (b : Region) : Directed regionCmp l b := by
  refine hbefore.imp_of_mem fun {x y} hx hy hxy => ?_
  have hpx := hproper x hx
  have hpy := hproper y hy
  unfold Region.Proper at hpx hpy
  unfold Region.Before at hxy
  have hpos : 0 < regionCmp x b → 0 < regionCmp y b := by
    rw [regionCmp_pos, regionCmp_pos]
    intro h
    bv_omega
  refine ⟨fun hx0 => ?_, hpos⟩
  rcases Int.lt_or_eq_of_le hx0 with hlt | heq
  · exact Int.le_of_lt (hpos hlt)
  · -- the one before covers the region sought, so the one after starts no earlier than its end
    have hcover := regionCmp_eq_zero.1 heq.symm
    obtain ⟨h1, h2⟩ := hcover
    by_cases hlt : b.start < y.start
    · exact Int.le_of_lt (regionCmp_pos.2 hlt)
    · exact Int.le_of_eq (regionCmp_eq_zero.2 ⟨by bv_omega, by bv_omega⟩).symm

namespace Alloc

variable {tree : Store Region regionCmp}

/-! ## One space -/

/-- The values of a tree are the regions of a set, which are disjoint and not empty, in order. -/
structure Keeps (l : List Region) (s : Set Region) : Prop where
  before : l.Pairwise Region.Before
  proper : ∀ x ∈ l, x.Proper
  mem : ∀ {x}, x ∈ l ↔ x ∈ s

namespace Keeps

variable {l : List Region} {s : Set Region}

/-- Two regions of the set share no address. -/
theorem eq_of_contains (h : Keeps l s) {a b : Region} (ha : a ∈ s) (hb : b ∈ s) {addr : Word}
    (haddr : a.Contains addr) (hbddr : b.Contains addr) : a = b := by
  by_contra hne
  have hsymm : Std.Symm fun x y : Region => x.Before y ∨ y.Before x := ⟨fun _ _ => Or.symm⟩
  have hpairs : l.Pairwise fun x y : Region => x.Before y ∨ y.Before x := h.before.imp Or.inl
  rcases hpairs.forall (h.mem.2 ha) (h.mem.2 hb) hne with hab | hba
  · exact hab.not_contains haddr hbddr
  · exact hba.not_contains hbddr haddr

/-- Live regions that overlap are the same. -/
theorem eq_of_overlaps (h : Keeps l s) {a b : Region} (ha : a ∈ s) (hb : b ∈ s)
    (hover : a.Overlaps b) : a = b := by
  obtain ⟨addr, haddr, hbddr⟩ := hover
  exact h.eq_of_contains ha hb haddr hbddr

/-- No region is stored twice. -/
theorem nodup (h : Keeps l s) : l.Nodup := by
  refine h.before.imp_of_mem fun {x y} hx _ hxy hne => ?_
  have hproper := h.proper x hx
  subst hne
  unfold Region.Proper at hproper
  unfold Region.Before at hxy
  bv_omega

/-- The search for a region goes the right way at every stored one. -/
theorem directed (h : Keeps l s) (b : Region) : Directed regionCmp l b :=
  directed_regionCmp h.before h.proper b

/-- Of the regions that share an address with a region, at most one covers it. -/
theorem eq_of_covers (h : Keeps l s) {a b x : Region} (ha : a ∈ s) (hb : b ∈ s)
    (hax : a.Covers x) (hbx : b.Overlaps x) : b = a := by
  obtain ⟨addr, hb', hx'⟩ := hbx
  obtain ⟨h1, h2⟩ := hax
  obtain ⟨h3, h4⟩ := hx'
  exact h.eq_of_contains hb ha hb' ⟨by bv_omega, by bv_omega⟩

end Keeps

variable {t : tree.T} {s : Set Region} {x : Region}

/-- A search finds a match if some region covers the one sought. -/
theorem descend_none (h : Keeps (tree.shape t).inorder s) :
    descend regionCmp (tree.shape t) x = none ↔ ¬ ∃ l ∈ s, l.Covers x := by
  rw [descend_eq_none (h.directed x)]
  constructor
  · rintro hall ⟨l, hl, hcover⟩
    exact hall l (h.mem.2 hl) (regionCmp_eq_zero.2 hcover)
  · intro hno l hl hzero
    exact hno ⟨l, h.mem.1 hl, regionCmp_eq_zero.1 hzero⟩

/-- An insertion is refused exactly if a live region contains the new one. -/
theorem insert_fst (h : Keeps (tree.shape t).inorder s) :
    (tree.insert t x).1 = true ↔ ¬ ∃ l ∈ s, l.Covers x := by
  rw [tree.insert_fst, Option.isNone_iff_eq_none, descend_none h]

/-- A tree keeps its regions when it refuses one. -/
theorem insert_refused (h : Keeps (tree.shape t).inorder s) (hno : (tree.insert t x).1 = false) :
    Keeps (tree.shape (tree.insert t x).2).inorder s := by
  rw [tree.insert_match t x hno]
  exact h

/-- A tree takes a region that overlaps none of its own to its place. -/
theorem insert_taken (h : Keeps (tree.shape t).inorder s) (hx : x.Proper)
    (hno : ¬ ∃ l ∈ s, l.Overlaps x) :
    (tree.insert t x).1 = true ∧ Keeps (tree.shape (tree.insert t x).2).inorder (insert x s) := by
  have hnew : (tree.insert t x).1 = true :=
    (insert_fst h).2 fun ⟨l, hl, hcover⟩ => hno ⟨l, hl, hcover.overlaps hx⟩
  -- a region that shares no address lies on one side
  have hapart : ∀ l ∈ (tree.shape t).inorder, ¬ (l.start < x.stop ∧ x.start < l.stop) :=
    fun l hl h' => hno ⟨l, h.mem.1 hl, (Region.overlaps_iff (h.proper l hl) hx).2 h'⟩
  have hproper : ∀ l ∈ (tree.shape t).inorder, l.start < l.stop := h.proper
  unfold Region.Proper at hx
  have hperm : (insertLeaf regionCmp (tree.shape t) x).inorder.Perm _ := insertLeaf_perm _ _
  refine ⟨hnew, ?_, fun y hy => ?_, fun {y} => ?_⟩
  · rw [tree.insert_new t x hnew]
    refine insertLeaf_pairwise h.before (h.directed x) (fun l hl hpos => ?_) (fun l hl hpos => ?_)
    · have := hapart l hl
      have := hproper l hl
      rw [regionCmp_pos] at hpos
      unfold Region.Before
      bv_omega
    · have := hapart l hl
      rw [regionCmp_pos] at hpos
      unfold Region.Before
      bv_omega
  · rw [tree.insert_new t x hnew, hperm.mem_iff, List.mem_cons] at hy
    rcases hy with rfl | hy
    · exact hx
    · exact h.proper y hy
  · rw [tree.insert_new t x hnew, hperm.mem_iff, List.mem_cons, h.mem, Set.mem_insert_iff]

/-- Removing a region takes it out of the set. -/
theorem remove_keeps (h : Keeps (tree.shape t).inorder s) (hx : x ∈ s) :
    Keeps (tree.shape (tree.remove t x)).inorder (s \ {x}) := by
  rw [← h.mem] at hx
  have herase := tree.remove_inorder t x hx
  refine ⟨?_, fun y hy => ?_, fun {y} => ?_⟩
  · rw [herase]
    exact h.before.sublist List.erase_sublist
  · rw [herase] at hy
    exact h.proper y (List.mem_of_mem_erase hy)
  · rw [herase, h.nodup.mem_erase_iff, h.mem, Set.mem_sdiff, Set.mem_singleton_iff, and_comm]

/-- A query that finds nothing: no region contains the address or ends at it. -/
theorem descend_point_none (h : Keeps (tree.shape t).inorder s) {addr : Word}
    (hdesc : descend regionCmp (tree.shape t) ⟨addr, addr⟩ = none) :
    (¬ ∃ l ∈ s, l.Contains addr) ∧ ∀ l ∈ (tree.shape t).inorder, l.stop ≠ addr := by
  have hno := (descend_none h).1 hdesc
  constructor
  · rintro ⟨l, hl, hstart, hstop⟩
    exact hno ⟨l, hl, hstart, BitVec.le_of_lt hstop⟩
  · intro l hl hstop
    have hproper : l.start < l.stop := h.proper l hl
    exact hno ⟨l, h.mem.1 hl, by bv_omega, by bv_omega⟩

/-- A query that finds a region which ends at the address: none that starts there lies above it. -/
theorem descend_point_end (h : Keeps (tree.shape t).inorder s) {addr : Word} {y : Region}
    (hdesc : descend regionCmp (tree.shape t) ⟨addr, addr⟩ = some y) (hend : y.stop = addr) :
    ¬ ∃ l ∈ (tree.shape t).inorder, l.start = addr ∧ (tree.shape t).Above l y := by
  rintro ⟨l, hl, hstart, habove⟩
  obtain ⟨hy, hzero⟩ := descend_some hdesc
  have hproper : l.start < l.stop := h.proper l hl
  have hyproper : y.start < y.stop := h.proper y hy
  have hmatch : regionCmp l ⟨addr, addr⟩ = 0 :=
    regionCmp_eq_zero.2 ⟨by bv_omega, by bv_omega⟩
  rcases (descend_eq_some (h.directed _) h.nodup hy hzero).1 hdesc l hl hmatch with rfl | hunder
  · bv_omega
  · exact habove.asymm h.nodup hunder

/-- A query that finds a region which does not end at the address: it contains the address, and if
another region ends there, this one starts there and lies above it. -/
theorem descend_point_inside (h : Keeps (tree.shape t).inorder s) {addr : Word} {y : Region}
    (hdesc : descend regionCmp (tree.shape t) ⟨addr, addr⟩ = some y) (hend : y.stop ≠ addr) :
    y.Contains addr ∧ ∀ l ∈ (tree.shape t).inorder, l.stop = addr →
      y.start = addr ∧ (tree.shape t).Above y l := by
  obtain ⟨hy, hzero⟩ := descend_some hdesc
  obtain ⟨hstart, hstop⟩ := regionCmp_eq_zero.1 hzero
  dsimp only at hstart hstop
  refine ⟨⟨hstart, by bv_omega⟩, fun l hl hlstop => ?_⟩
  have hproper : y.start < y.stop := h.proper y hy
  have hlproper : l.start < l.stop := h.proper l hl
  have hmatch : regionCmp l ⟨addr, addr⟩ = 0 :=
    regionCmp_eq_zero.2 ⟨by bv_omega, by bv_omega⟩
  rcases (descend_eq_some (h.directed _) h.nodup hy hzero).1 hdesc l hl hmatch with rfl | hunder
  · exact absurd hlstop hend
  · refine ⟨?_, hunder⟩
    -- two regions of the set are disjoint
    by_contra hne
    have hshared : l.Overlaps y :=
      (Region.overlaps_iff hlproper hproper).2 ⟨by bv_omega, by bv_omega⟩
    exact hend (h.eq_of_overlaps (h.mem.1 hl) (h.mem.1 hy) hshared ▸ hlstop)

/-! ## All spaces -/

/-- The regions stored for a space. -/
def regions (a : Alloc tree) (space : Word) : List Region := (tree.shape (a.spaces space)).inorder

/-- The trees of an allocator keep the live regions. -/
def Matches (a : Alloc tree) (live : Live) : Prop :=
  ∀ space < a.maxSpaces, Keeps (a.regions space) (live space)

/-- The request in the input register does not fall between what `region_cmp` compares and what sets
of regions ask: a new region that overlaps a stored one lies in it, a removal of a region in a
stored one names that one, and the end of a stored region is only asked for if a region starts there
that the tree holds above it. -/
def Fits (a : Alloc tree) : Prop :=
  match a.inn.pkt.allocRequest with
  | none => True
  | some (.new space region) => space < a.maxSpaces →
      ∀ l ∈ a.regions space, l.Overlaps region → l.Covers region
  | some (.rm space region) => space < a.maxSpaces →
      ∀ l ∈ a.regions space, l.Covers region → l = region
  | some (.q space addr) => space < a.maxSpaces →
      ∀ l ∈ a.regions space, l.stop = addr →
        ∃ l' ∈ a.regions space, l'.start = addr ∧ (tree.shape (a.spaces space)).Above l' l

/-- The answer an outcome gives. -/
def Outcome.answer (o : Outcome tree) : AllocIfR := ⟨o.ret.code, o.start, o.stop⟩

/-- The reply carries the answer of the outcome. -/
theorem allocIfR_reply (request : Packet) (o : Outcome tree) :
    (reply request o).allocIfR = o.answer := by
  -- bytes 8 to 15 are the start, bytes 16 to 23 the end
  have hstart : (reply request o).field 8 = o.start := by
    refine (leWord_congr fun i hi => ?_).trans (leWord_bytes o.start)
    have hlt : 8 + i < 64 := by omega
    simp only [Packet.byte, hlt, reply, writeAllocIfR, dif_pos]
    rw [if_neg (by omega), if_neg (by omega), if_pos (by omega), Nat.add_sub_cancel_left]
  have hstop : (reply request o).field 16 = o.stop := by
    refine (leWord_congr fun i hi => ?_).trans (leWord_bytes o.stop)
    have hlt : 16 + i < 64 := by omega
    simp only [Packet.byte, hlt, reply, writeAllocIfR, dif_pos]
    rw [if_neg (by omega), if_neg (by omega), if_neg (by omega), if_pos (by omega),
      Nat.add_sub_cancel_left]
  have hret : (leWord (reply request o).byte 4).truncate 32 = o.ret.code := by
    have hbytes : leWord (reply request o).byte 4 =
        leWord (fun i => (o.ret.code >>> (8 * i)).truncate 8) 4 := by
      refine leWord_congr fun i hi => ?_
      have hlt : i < 64 := by omega
      simp only [Packet.byte, hlt, reply, writeAllocIfR, dif_pos]
      rw [if_pos hi]
    rw [hbytes]
    cases o.ret <;> decide
  rw [Packet.allocIfR, hstart, hstop, hret]
  rfl

/-- A tree that keeps the live regions of its space may be replaced. -/
theorem matches_setSpace {a : Alloc tree} {live : Live} (h : Matches a live) (space : Word)
    {t : tree.T} {s : Set Region} (ht : Keeps (tree.shape t).inorder s) :
    Matches (a.setSpace space t) (Function.update live space s) := by
  intro i hi
  by_cases his : i = space
  · subst his
    simpa [regions, setSpace] using ht
  · simpa [regions, setSpace, his] using h i hi

/-- A rebalanced tree still matches. -/
theorem matches_rebalanced {a : Alloc tree} {live : Live} (h : Matches a live) {space : Word}
    {t : tree.T} (ht : Keeps (tree.shape t).inorder (live space)) :
    Matches (a.setSpace space t) live := by
  have hset := matches_setSpace h space ht
  rwa [Function.update_eq_self] at hset

/-! ## One request -/

/-- An operation whose answer and new regions are those of the sets of regions exactly under a
condition. -/
structure Answers (a : Alloc tree) (live : Live) (request : AllocRequest) (o : Outcome tree)
    (fits : Prop) : Prop where
  answer : o.answer = live.answer a.maxSpaces request ↔ fits
  keeps : fits → Matches o.alloc (live.next a.maxSpaces request)

namespace Answers

variable {a : Alloc tree} {live : Live} {request : AllocRequest} {o : Outcome tree} {fits : Prop}

/-- A request that fits and is answered right. -/
theorem of_fits (hfits : fits) (hanswer : o.answer = live.answer a.maxSpaces request)
    (hkeeps : Matches o.alloc (live.next a.maxSpaces request)) : Answers a live request o fits :=
  ⟨⟨fun _ => hfits, fun _ => hanswer⟩, fun _ => hkeeps⟩

/-- A request that does not fit and is answered wrong. -/
theorem of_not_fits (hnot : ¬ fits) (hanswer : o.answer ≠ live.answer a.maxSpaces request) :
    Answers a live request o fits :=
  ⟨⟨fun h => absurd h hanswer, fun h => absurd h hnot⟩, fun h => absurd h hnot⟩

/-- A request for a space that does not exist changes nothing. -/
theorem err_space {space : Word} (hspace : a.maxSpaces ≤ space) (ha : Matches a live)
    (hanswer : live.answer a.maxSpaces request = ⟨AllocIfRet.ERR_SPACE.code, 0, 0⟩)
    (hnext : live.next a.maxSpaces request = live) :
    Answers a live request ⟨.ERR_SPACE, 0, 0, a⟩ (space < a.maxSpaces → fits) :=
  of_fits (fun hlt => absurd hlt (BitVec.not_lt.2 hspace)) hanswer.symm (hnext.symm ▸ ha)

end Answers

/-- What is not `OK` is not answered `OK`. -/
theorem err_range_ne (start stop : Word) :
    (⟨AllocIfRet.OK.code, start, stop⟩ : AllocIfR) ≠ ⟨AllocIfRet.ERR_RANGE.code, 0, 0⟩ := by
  simp [AllocIfRet.code]

/-- `alloc_new` answers as the sets do exactly if the region fits. -/
theorem newOutcome_spec {a : Alloc tree} {live : Live} (ha : Matches a live) {n : AllocIfNew}
    (hn : a.inn.pkt.allocIfNew = n) (hx : Region.Proper ⟨n.start, n.stop⟩) :
    Answers a live (.new n.space ⟨n.start, n.stop⟩) (newOutcome a)
      (n.space < a.maxSpaces → ∀ l ∈ a.regions n.space,
        l.Overlaps ⟨n.start, n.stop⟩ → l.Covers ⟨n.start, n.stop⟩) := by
  by_cases hspace : a.maxSpaces ≤ n.space
  · have houtcome : newOutcome a = ⟨.ERR_SPACE, 0, 0, a⟩ := by
      simp only [newOutcome, hn, ge_iff_le, hspace, if_true]
    rw [houtcome]
    exact .err_space hspace ha (by simp only [Live.answer, hspace, if_true])
      (by simp only [Live.next, hspace, true_or, if_true])
  have hlt : n.space < a.maxSpaces := BitVec.not_le.1 hspace
  have hk := ha n.space hlt
  by_cases hover : ∃ l ∈ live n.space, l.Overlaps ⟨n.start, n.stop⟩
  · have hanswer : live.answer a.maxSpaces (.new n.space ⟨n.start, n.stop⟩) =
        ⟨AllocIfRet.ERR_RANGE.code, 0, 0⟩ := by
      simp only [Live.answer, hspace, hover, if_false, if_true]
    have hnext : live.next a.maxSpaces (.new n.space ⟨n.start, n.stop⟩) = live := by
      simp only [Live.next, hover, or_true, if_true]
    cases hins : (tree.insert (a.spaces n.space) ⟨n.start, n.stop⟩).1 with
    | false =>
        have houtcome : newOutcome a = ⟨.ERR_RANGE, 0, 0, a.setSpace n.space
            (tree.insert (a.spaces n.space) ⟨n.start, n.stop⟩).2⟩ := by
          simp [newOutcome, hn, hspace, hins]
        rw [houtcome]
        refine .of_fits (fun _ l hl hlover => ?_) hanswer.symm ?_
        · -- the tree refused the region, so some region covers it, and it is the only one there
          obtain ⟨l', hl', hcover⟩ : ∃ l ∈ live n.space, l.Covers ⟨n.start, n.stop⟩ := by
            by_contra hno
            rw [(insert_fst hk).2 hno] at hins
            cases hins
          rw [hk.eq_of_covers hl' (hk.mem.1 hl) hcover hlover]
          exact hcover
        · rw [hnext]
          exact matches_rebalanced ha (insert_refused hk hins)
    | true =>
        have houtcome : (newOutcome a).answer = ⟨AllocIfRet.OK.code, n.start, n.stop⟩ := by
          simp [newOutcome, hn, hspace, hins, Outcome.answer]
        refine .of_not_fits (fun hfits => ?_) ?_
        · obtain ⟨l, hl, hlover⟩ := hover
          exact (insert_fst hk).1 hins ⟨l, hl, hfits hlt l (hk.mem.2 hl) hlover⟩
        · rw [houtcome, hanswer]
          exact err_range_ne _ _
  · obtain ⟨hins, hkeeps⟩ := insert_taken hk hx hover
    have houtcome : newOutcome a = ⟨.OK, n.start, n.stop, a.setSpace n.space
        (tree.insert (a.spaces n.space) ⟨n.start, n.stop⟩).2⟩ := by
      simp [newOutcome, hn, hspace, hins]
    rw [houtcome]
    refine .of_fits (fun _ l hl hlover => absurd ⟨l, hk.mem.1 hl, hlover⟩ hover) ?_ ?_
    · simp only [Live.answer, hspace, hover, if_false]
      rfl
    · simp only [Live.next, hspace, hover, or_self, if_false]
      exact matches_setSpace ha n.space hkeeps

/-- `alloc_rm` answers as the sets do exactly if the region fits. -/
theorem rmOutcome_spec {a : Alloc tree} {live : Live} (ha : Matches a live) {n : AllocIfNew}
    (hn : a.inn.pkt.allocIfNew = n) (hx : Region.Proper ⟨n.start, n.stop⟩) :
    Answers a live (.rm n.space ⟨n.start, n.stop⟩) (rmOutcome a)
      (n.space < a.maxSpaces → ∀ l ∈ a.regions n.space,
        l.Covers ⟨n.start, n.stop⟩ → l = ⟨n.start, n.stop⟩) := by
  by_cases hspace : a.maxSpaces ≤ n.space
  · have houtcome : rmOutcome a = ⟨.ERR_SPACE, 0, 0, a⟩ := by
      simp only [rmOutcome, hn, ge_iff_le, hspace, if_true]
    rw [houtcome]
    exact .err_space hspace ha (by simp only [Live.answer, hspace, if_true])
      (by simp only [Live.next, hspace, if_true])
  have hlt : n.space < a.maxSpaces := BitVec.not_le.1 hspace
  have hk := ha n.space hlt
  generalize hregion : (⟨n.start, n.stop⟩ : Region) = x at *
  have hself : x.Covers x := ⟨BitVec.le_refl _, BitVec.le_refl _⟩
  -- the tree after the search keeps the same regions
  have hrest : Keeps (tree.shape (tree.find (a.spaces n.space) x).2).inorder (live n.space) := by
    rw [tree.find_snd]
    exact hk
  have hfound := tree.find_fst (a.spaces n.space) x
  cases hdesc : descend regionCmp (tree.shape (a.spaces n.space)) x with
  | none =>
      have hno := (descend_none hk).1 hdesc
      rw [hdesc] at hfound
      have houtcome : rmOutcome a = ⟨.ERR_RANGE, 0, 0, a.setSpace n.space
          (tree.find (a.spaces n.space) x).2⟩ := by
        simp [rmOutcome, hn, hspace, hregion, hfound]
      have hnot : x ∉ live n.space := fun hmem => hno ⟨x, hmem, hself⟩
      rw [houtcome]
      refine .of_fits (fun _ l hl hcover => absurd ⟨l, hk.mem.1 hl, hcover⟩ hno) ?_ ?_
      · simp only [Live.answer, hspace, hnot, if_false]
        rfl
      · have hsame : live.next a.maxSpaces (.rm n.space x) = live := by
          simp only [Live.next, hspace, if_false, Set.sdiff_singleton_eq_self hnot,
            Function.update_eq_self]
        rw [hsame]
        exact matches_rebalanced ha hrest
  | some y =>
      obtain ⟨hy, hzero⟩ := descend_some hdesc
      have hcover := regionCmp_eq_zero.1 hzero
      rw [hdesc] at hfound
      have houtcome : rmOutcome a = ⟨.OK, 0, 0, a.setSpace n.space
          (tree.remove (tree.find (a.spaces n.space) x).2 y)⟩ := by
        simp [rmOutcome, hn, hspace, hregion, hfound]
      rw [houtcome]
      by_cases hyx : y = x
      · subst hyx
        have hmem : y ∈ live n.space := hk.mem.1 hy
        refine .of_fits (fun _ l hl hlcover => ?_) ?_ ?_
        · exact hk.eq_of_covers hmem (hk.mem.1 hl) hself (hlcover.overlaps hx)
        · simp only [Live.answer, hspace, hmem, if_false, if_true]
          rfl
        · simp only [Live.next, hspace, if_false]
          exact matches_setSpace ha n.space (remove_keeps hrest hmem)
      · -- a region that only covers the one to remove was taken for it
        have hdead : x ∉ live n.space := fun hmem =>
          hyx (hk.eq_of_covers hmem (hk.mem.1 hy) hself (hcover.overlaps hx))
        refine .of_not_fits (fun hfits => hyx (hfits hlt y hy hcover)) ?_
        simp only [Live.answer, hspace, hdead, if_false]
        exact err_range_ne _ _

/-- `alloc_q` answers as the sets do exactly if the address fits. -/
theorem qOutcome_spec {a : Alloc tree} {live : Live} (ha : Matches a live) {q : AllocIfQ}
    (hq : a.inn.pkt.allocIfQ = q) :
    Answers a live (.q q.space q.addr) (qOutcome a)
      (q.space < a.maxSpaces → ∀ l ∈ a.regions q.space, l.stop = q.addr →
        ∃ l' ∈ a.regions q.space, l'.start = q.addr ∧
          (tree.shape (a.spaces q.space)).Above l' l) := by
  by_cases hspace : a.maxSpaces ≤ q.space
  · have houtcome : qOutcome a = ⟨.ERR_SPACE, 0, 0, a⟩ := by
      simp only [qOutcome, hq, ge_iff_le, hspace, if_true]
    rw [houtcome]
    exact .err_space hspace ha (by simp only [Live.answer, hspace, if_true]) rfl
  have hlt : q.space < a.maxSpaces := BitVec.not_le.1 hspace
  have hk := ha q.space hlt
  have hrest : Keeps (tree.shape (tree.find (a.spaces q.space) ⟨q.addr, q.addr⟩).2).inorder
      (live q.space) := by
    rw [tree.find_snd]
    exact hk
  have hfound := tree.find_fst (a.spaces q.space) ⟨q.addr, q.addr⟩
  cases hdesc : descend regionCmp (tree.shape (a.spaces q.space)) ⟨q.addr, q.addr⟩ with
  | none =>
      obtain ⟨hnone, hends⟩ := descend_point_none hk hdesc
      rw [hdesc] at hfound
      have houtcome : qOutcome a = ⟨.ERR_RANGE, 0, 0, a.setSpace q.space
          (tree.find (a.spaces q.space) ⟨q.addr, q.addr⟩).2⟩ := by
        simp [qOutcome, hq, hspace, hfound]
      rw [houtcome]
      refine .of_fits (fun _ l hl hstop => absurd hstop (hends l hl)) ?_
        (matches_rebalanced ha hrest)
      simp only [Live.answer, hspace, hnone, dif_neg, not_false_eq_true, if_false]
      rfl
  | some y =>
      have hy := (descend_some hdesc).1
      rw [hdesc] at hfound
      have houtcome : qOutcome a = ⟨.OK, y.start, y.stop, a.setSpace q.space
          (tree.find (a.spaces q.space) ⟨q.addr, q.addr⟩).2⟩ := by
        simp [qOutcome, hq, hspace, hfound]
      rw [houtcome]
      by_cases hend : y.stop = q.addr
      · -- the region found ends at the address and does not contain it
        refine .of_not_fits
          (fun hfits => descend_point_end hk hdesc hend (hfits hlt y hy hend)) (fun heq => ?_)
        by_cases hsome : ∃ l ∈ live q.space, l.Contains q.addr
        · obtain ⟨hc, hcstart, hcstop⟩ := hsome.choose_spec
          simp only [Live.answer, hspace, hsome, if_false, dif_pos, Outcome.answer,
            AllocIfR.mk.injEq] at heq
          exact absurd (heq.2.2.symm.trans hend) (by bv_omega)
        · simp only [Live.answer, hspace, hsome, dif_neg, not_false_eq_true, if_false] at heq
          exact absurd heq (err_range_ne _ _)
      · obtain ⟨haddr, hends⟩ := descend_point_inside hk hdesc hend
        have hsome : ∃ l ∈ live q.space, l.Contains q.addr := ⟨y, hk.mem.1 hy, haddr⟩
        obtain ⟨hc, hcaddr⟩ := hsome.choose_spec
        have hchoose := hk.eq_of_contains hc (hk.mem.1 hy) hcaddr haddr
        refine .of_fits (fun _ l hl hlstop => ⟨y, hy, hends l hl hlstop⟩) ?_
          (matches_rebalanced ha hrest)
        simp only [Live.answer, hspace, hsome, if_false, dif_pos, Outcome.answer, hchoose]

/-- Each of the three operations answers as the sets of regions do exactly if its request fits. -/
theorem outcome_spec {a : Alloc tree} {live : Live} (ha : Matches a live) {request : AllocRequest}
    (hrequest : a.inn.pkt.allocRequest = some request) (hproper : request.Proper) :
    Answers a live request (outcome a) (Fits a) := by
  have hfits := hrequest
  unfold Packet.allocRequest at hrequest
  unfold Fits outcome
  rw [hfits]
  dsimp only at hrequest ⊢
  split at hrequest
  · obtain rfl := Option.some.inj hrequest
    rw [if_pos (by assumption)]
    exact newOutcome_spec ha rfl hproper
  · rw [if_neg (by assumption)]
    split at hrequest
    · obtain rfl := Option.some.inj hrequest
      rw [if_pos (by assumption)]
      exact rmOutcome_spec ha rfl hproper
    · rw [if_neg (by assumption)]
      split at hrequest
      · obtain rfl := Option.some.inj hrequest
        exact qOutcome_spec ha rfl
      · cases hrequest

/-! ## Runs -/

/-- The requests a run replied to. -/
def Run.requests (r : Run tree) : List AllocRequest :=
  r.answered.filterMap fun p => p.1.allocRequest

/-- The answers in the replies of a run. -/
def Run.answers (r : Run tree) : List AllocIfR := r.answered.map fun p => p.2.allocIfR

/-- Every request a run replied to fitted the regions it found. -/
def Run.AllFit (r : Run tree) : Prop := ∀ c ∈ r.clocks, c.answered ≠ none → Fits c.before

/-- Every accepted packet is one of the three requests, for a region that is not empty. -/
def Run.ProperRequests (r : Run tree) : Prop :=
  ∀ pkt ∈ r.accepted, ∃ request, pkt.allocRequest = some request ∧ request.Proper

/-- What the induction over a run keeps. -/
structure Run.Simulates (maxSpaces : Word) (r : Run tree) : Prop where
  spaces : r.state.maxSpaces = maxSpaces
  answers : r.answers = Live.answers maxSpaces (fun _ => ∅) r.requests ↔ r.AllFit
  keeps : r.AllFit → Matches r.state (r.requests.foldl (Live.next maxSpaces) fun _ => ∅)

/-- A clock of a run with what it did. -/
def Run.snoc (r : Run tree) (c : Clocked tree) : Run tree :=
  { r with state := c.after, clocks := r.clocks ++ [c] }

/-- The requests that a run with one more clock replied to. -/
theorem Run.answered_snoc (r : Run tree) (c : Clocked tree) :
    (r.snoc c).answered = r.answered ++ c.answered.toList := by
  rw [Run.answered, Run.snoc, List.filterMap_append]
  rfl

/-- Whether everything fitted in a run with one more clock. -/
theorem Run.allFit_snoc {r : Run tree} {c : Clocked tree} :
    (r.snoc c).AllFit ↔ r.AllFit ∧ (c.answered ≠ none → Fits c.before) := by
  simp only [Run.AllFit, Run.snoc, List.mem_append, List.mem_singleton, or_imp, forall_and,
    forall_eq]

/-- A clock that replies to nothing keeps the simulation if it keeps the regions. -/
theorem Run.Simulates.idle {maxSpaces : Word} {r : Run tree} (h : r.Simulates maxSpaces)
    {c : Clocked tree} (hnone : c.answered = none) (hspaces : c.after.spaces = r.state.spaces)
    (hmax : c.after.maxSpaces = r.state.maxSpaces) : (r.snoc c).Simulates maxSpaces := by
  have hanswered : (r.snoc c).answered = r.answered := by
    rw [Run.answered_snoc, hnone, Option.toList_none, List.append_nil]
  have hfit : (r.snoc c).AllFit ↔ r.AllFit := by
    rw [Run.allFit_snoc, hnone]
    exact and_iff_left fun hne => absurd rfl hne
  refine ⟨hmax.trans h.spaces, ?_, fun hall => ?_⟩
  · rw [hfit, Run.answers, Run.requests, hanswered]
    exact h.answers
  · rw [Run.requests, hanswered]
    intro space hlt
    have hkeeps := h.keeps (hfit.1 hall) space (hmax ▸ hlt)
    show Keeps (tree.shape (c.after.spaces space)).inorder _
    rw [hspaces]
    exact hkeeps

/-- A clock that replies to a request keeps the simulation. -/
theorem Run.Simulates.served {maxSpaces : Word} {r : Run tree} (h : r.Simulates maxSpaces)
    {c : Clocked tree} {pkt : Packet} {request : AllocRequest}
    (hrequest : pkt.allocRequest = some request) (hproper : request.Proper)
    (hbefore : c.before = r.state) (hpkt : r.state.inn.pkt = pkt)
    (hanswered : c.answered = some (pkt, reply pkt (outcome (sent r.state))))
    (hspaces : c.after.spaces = (outcome (sent r.state)).alloc.spaces)
    (hmax : c.after.maxSpaces = (outcome (sent r.state)).alloc.maxSpaces) :
    (r.snoc c).Simulates maxSpaces := by
  have hkeptmax : c.after.maxSpaces = r.state.maxSpaces := by
    rw [hmax, (outcome_regs (sent r.state)).2.2]
    rfl
  have hlist : (r.snoc c).answered = r.answered ++ [(pkt, reply pkt (outcome (sent r.state)))] := by
    rw [Run.answered_snoc, hanswered]
    rfl
  have hrequests : (r.snoc c).requests = r.requests ++ [request] := by
    rw [Run.requests, hlist, List.filterMap_append]
    simp [Run.requests, hrequest]
  have hanswers : (r.snoc c).answers = r.answers ++ [(outcome (sent r.state)).answer] := by
    rw [Run.answers, hlist, List.map_append, List.map_singleton, allocIfR_reply]
    rfl
  have hfit : (r.snoc c).AllFit ↔ r.AllFit ∧ Fits (sent r.state) := by
    rw [Run.allFit_snoc, hanswered, hbefore]
    exact and_congr_right fun _ => ⟨fun h => h (by simp), fun h _ => h⟩
  -- as long as everything fitted, the request is answered as the sets answer it exactly if it fits
  have hstep : r.AllFit → Answers (sent r.state)
      (r.requests.foldl (Live.next maxSpaces) fun _ => ∅) request (outcome (sent r.state))
      (Fits (sent r.state)) := fun hall =>
    outcome_spec (a := sent r.state) (h.keeps hall) (by rw [← hrequest, ← hpkt]; rfl) hproper
  have hsent : (sent r.state).maxSpaces = maxSpaces := h.spaces
  refine ⟨hkeptmax.trans h.spaces, ?_, fun hall => ?_⟩
  · rw [hanswers, hrequests, Live.answers_append, List.append_singleton_inj, hfit, h.answers]
    refine and_congr_right fun hall => ?_
    have hanswer := (hstep hall).answer
    rwa [hsent] at hanswer
  · obtain ⟨hall, hfits⟩ := hfit.1 hall
    have hkeeps := (hstep hall).keeps hfits
    rw [hsent] at hkeeps
    rw [hrequests, List.foldl_append, List.foldl_cons, List.foldl_nil]
    intro space hlt
    have hkeep := hkeeps space (hmax ▸ hlt)
    show Keeps (tree.shape (c.after.spaces space)).inorder _
    rw [hspaces]
    exact hkeep

/-- Every run simulates the sets of regions as long as everything fits. -/
theorem Run.Reachable.simulates {maxSpaces : Word} {r : Run tree} (h : r.Reachable maxSpaces)
    (hproper : r.ProperRequests) : r.Simulates maxSpaces := by
  induction h with
  | refl =>
      have hfit : (Run.init tree maxSpaces).AllFit := fun c hc => by cases hc
      refine ⟨rfl, ⟨fun _ => hfit, fun _ => rfl⟩, fun _ space _ => ?_⟩
      have hempty : (Run.init tree maxSpaces).state.regions space = [] := tree.shape_create
      rw [hempty]
      exact ⟨List.Pairwise.nil, by simp, by simp [Run.requests, Run.answered, Run.init]⟩
  | @tail r r' hreach hstep ih =>
      have hacc := Run.Reachable.accounted hreach
      cases hstep with
      | receive pkt =>
          unfold allocReceive at hproper ⊢
          split at hproper
          · rename_i hbusy
            rw [if_pos hbusy]
            exact ih hproper
          · rename_i hbusy
            rw [if_neg hbusy]
            have hr := ih fun x hx => hproper x (List.mem_append_left _ hx)
            exact ⟨hr.spaces, hr.answers, hr.keeps⟩
      | clock again now hagain hnow ret a' offers h =>
          have hr := ih hproper
          have hcases := allocClock_cases h
          show (r.snoc ⟨r.state, again, now, a', offers⟩).Simulates maxSpaces
          cases hcases with
          | idle hin => exact hr.idle (by simp [Clocked.answered, hin]) rfl rfl
          | refused hin hout hrefused => exact hr.idle (by simp [Clocked.answered, hin]) rfl rfl
          | stuck hin hgone hop =>
              have hstill : (sent r.state).inn.busy = true := hin
              exact hr.idle (by simp [Clocked.answered, hin, hstill]) rfl rfl
          | served hin hgone hop =>
              have hheld : r.state.inn.held = some r.state.inn.pkt := Reg.held_eq_some.2 ⟨hin, rfl⟩
              have hmem : r.state.inn.pkt ∈ r.accepted := by
                rw [hacc.taken, hheld]
                simp
              obtain ⟨request, hrequest, hp⟩ := hproper _ hmem
              exact hr.served hrequest hp rfl rfl (by simp [Clocked.answered, hin]) rfl rfl

/-- The replies of the region allocator are those of a set of disjoint regions in each space exactly
if every request it replied to fitted the regions it found: no new region overlapped a live one
without lying in it, no removal named a part of a live region, and no query asked for the end of a
live region unless a region starts there that the tree holds above it. -/
theorem idealAlloc_regions {maxSpaces : Word} {r : Run tree} (h : r.Reachable maxSpaces)
    (hproper : r.ProperRequests) :
    r.answers = Live.answers maxSpaces (fun _ => ∅) r.requests ↔ r.AllFit :=
  (h.simulates hproper).answers

/-- A request that adds a region to space 0. -/
def addRegion (start stop : BitVec 8) : Packet :=
  { Packet.zero with data := fun i => if i = 8 then start else if i = 16 then stop else 0 }

/-- The requests that two packets stand for. -/
theorem addRegion_request :
    (addRegion 0 10).allocRequest = some (.new 0 ⟨0, 10⟩) ∧
      (addRegion 5 15).allocRequest = some (.new 0 ⟨5, 15⟩) := by
  decide +kernel

/-- A new region in every stored one fits. -/
theorem fits_new {a : Alloc tree} {space : Word} {region : Region}
    (hrequest : a.inn.pkt.allocRequest = some (.new space region))
    (h : ∀ l ∈ a.regions space, l.start ≤ region.start ∧ region.stop ≤ l.stop) : Fits a := by
  rw [Fits, hrequest]
  exact fun _ l hl _ => h l hl

/-- The removal of the only stored region fits. -/
theorem fits_rm {a : Alloc tree} {space : Word} {region : Region}
    (hrequest : a.inn.pkt.allocRequest = some (.rm space region))
    (h : ∀ l ∈ a.regions space, l = region) : Fits a := by
  rw [Fits, hrequest]
  exact fun _ l hl _ => h l hl

/-- An address where no stored region ends fits. -/
theorem fits_q {a : Alloc tree} {space addr : Word}
    (hrequest : a.inn.pkt.allocRequest = some (.q space addr))
    (h : ∀ l ∈ a.regions space, l.stop ≠ addr) : Fits a := by
  rw [Fits, hrequest]
  exact fun _ l hl hstop => absurd hstop (h l hl)

/-- `idealAlloc_regions` for a space that gets a region, refuses another one inside of it, is asked
for an address and loses the region again. -/
theorem idealAlloc_regions_first : ∃ r : Run (Store.plain Region regionCmp),
    r.requests = [.new 0 ⟨0, 10⟩, .new 0 ⟨2, 4⟩, .q 0 5, .rm 0 ⟨0, 10⟩] ∧
    r.answers = [⟨0, 0, 10⟩, ⟨2, 0, 0⟩, ⟨0, 0, 10⟩, ⟨0, 0, 0⟩] ∧
    r.answers = Live.answers 1 (fun _ => ∅) r.requests := by
  have hinit : (Run.init (Store.plain Region regionCmp) 1).Reachable 1 := .refl
  have hnew := (hinit.tail (.receive (addRegion 0 10))).tail
    (.clock .OK .OK (Or.inl rfl) (Or.inl rfl) _ _ _ rfl)
  have hagain := (hnew.tail (.receive (addRegion 2 4))).tail
    (.clock .OK .OK (Or.inl rfl) (Or.inl rfl) _ _ _ rfl)
  have hq := (hagain.tail (.receive { addRegion 5 0 with dst := 0x80 })).tail
    (.clock .OK .OK (Or.inl rfl) (Or.inl rfl) _ _ _ rfl)
  have hrun := (hq.tail (.receive { addRegion 0 10 with dst := 0x40 })).tail
    (.clock .OK .OK (Or.inl rfl) (Or.inl rfl) _ _ _ rfl)
  have hnewRequest : (addRegion 0 10).allocRequest = some (.new 0 ⟨0, 10⟩) := by decide +kernel
  have hagainRequest : (addRegion 2 4).allocRequest = some (.new 0 ⟨2, 4⟩) := by decide +kernel
  have hqRequest : ({ addRegion 5 0 with dst := 0x80 } : Packet).allocRequest =
      some (.q 0 5) := by decide +kernel
  have hrmRequest : ({ addRegion 0 10 with dst := 0x40 } : Packet).allocRequest =
      some (.rm 0 ⟨0, 10⟩) := by decide +kernel
  refine ⟨_, ?_, ?_, (idealAlloc_regions hrun ?_).2 ?_⟩
  · simp only [Run.requests]
    decide +kernel
  · simp only [Run.answers]
    decide +kernel
  · refine List.forall_mem_cons.2 ⟨⟨_, hnewRequest, show (0 : Word) < 10 by decide⟩, ?_⟩
    refine List.forall_mem_cons.2 ⟨⟨_, hagainRequest, show (2 : Word) < 4 by decide⟩, ?_⟩
    refine List.forall_mem_cons.2 ⟨⟨_, hqRequest, trivial⟩, ?_⟩
    exact List.forall_mem_singleton.2 ⟨_, hrmRequest, show (0 : Word) < 10 by decide⟩
  · refine List.forall_mem_cons.2 ⟨fun _ => fits_new hnewRequest (by decide +kernel), ?_⟩
    refine List.forall_mem_cons.2 ⟨fun _ => fits_new hagainRequest (by decide +kernel), ?_⟩
    refine List.forall_mem_cons.2 ⟨fun _ => fits_q hqRequest (by decide +kernel), ?_⟩
    exact List.forall_mem_singleton.2 fun _ => fits_rm hrmRequest (by decide +kernel)

/-- A region that partly overlaps a live one is accepted. -/
theorem idealAlloc_overlaps : ∃ r : Run (Store.plain Region regionCmp), r.Reachable 1 ∧
    r.ProperRequests ∧ r.answers ≠ Live.answers 1 (fun _ => ∅) r.requests := by
  have hinit : (Run.init (Store.plain Region regionCmp) 1).Reachable 1 := .refl
  have hasked := hinit.tail (.receive (addRegion 0 10))
  have hfirst := hasked.tail (.clock .OK .OK (Or.inl rfl) (Or.inl rfl) _ _ _ rfl)
  have hagain := hfirst.tail (.receive (addRegion 5 15))
  have hrun := hagain.tail (.clock .OK .OK (Or.inl rfl) (Or.inl rfl) _ _ _ rfl)
  refine ⟨_, hrun, ?_, ?_⟩
  · intro pkt hpkt
    rcases List.mem_cons.1 hpkt with rfl | hpkt
    · exact ⟨_, addRegion_request.1, show (0 : Word) < 10 by decide⟩
    · rw [List.mem_singleton.1 hpkt]
      exact ⟨_, addRegion_request.2, show (5 : Word) < 15 by decide⟩
  · generalize hr : Run.mk _ _ _ = r
    have hanswers : r.answers = [⟨0, 0, 10⟩, ⟨0, 5, 15⟩] := by
      rw [← hr]
      decide +kernel
    have hrequests : r.requests = [.new 0 ⟨0, 10⟩, .new 0 ⟨5, 15⟩] := by
      rw [← hr]
      decide +kernel
    rw [hanswers, hrequests]
    intro heq
    -- sets of regions refuse the second one, which shares address 5 with the first
    have hlive : (⟨0, 10⟩ : Region) ∈
        Live.next 1 (fun _ => ∅) (.new 0 ⟨0, 10⟩) 0 := by
      simp [Live.next]
    have hover : ∃ l ∈ Live.next 1 (fun _ => ∅) (.new 0 ⟨0, 10⟩) 0, l.Overlaps ⟨5, 15⟩ :=
      ⟨_, hlive, 5, ⟨by decide, by decide⟩, by decide, by decide⟩
    have hsecond := (List.cons.inj (List.cons.inj heq).2).1
    rw [Live.answer, if_neg (by decide), if_pos hover] at hsecond
    exact absurd hsecond (by decide)

end Alloc

end Gran
