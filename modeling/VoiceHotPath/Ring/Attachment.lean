import VoiceHotPath.Ring.Segment

/-!
# Attaching to a ring

Whoever gets through `attach` has a ring that its creator has constructed and
will not touch again, with slots of the size and in the number it expects, inside
the bytes it has mapped.
-/

namespace VoiceHotPath

section

variable {Name P : Type} {parties : P → ShmParty Name} {segments later : List (ShmSegment P)}
  {p q : P}

/-- What a party knows of its segment where it is. -/
def ShmPc.Knows (parties : P → ShmParty Name) (segments : List (ShmSegment P)) (p : P) :
    ShmPc → Prop
  | .creating id n => ∃ segment, segments[id]? = some segment ∧ segment.owner = p ∧
      segment.geometry = (parties p).geometry ∧ segment.stores = n
  | .attaching id n => ∃ segment, segments[id]? = some segment ∧
      segment.Passed (parties p).geometry n ∧ (parties p).role = .attach
  | .inUse id _ => ∃ segment, segments[id]? = some segment ∧
      segment.Passed (parties p).geometry 5 ∧
      ((parties p).role ≠ .attach → segment.owner = p ∧
        segment.geometry = (parties p).geometry ∧ segment.stores = 8)
  | _ => True

/-- Segments are added, and filled by `p` alone. -/
structure Grows (p : P) (segments later : List (ShmSegment P)) : Prop where
  kept : ∀ (id : Nat) (segment : ShmSegment P), segments[id]? = some segment →
    ∃ segment' : ShmSegment P, later[id]? = some segment' ∧ segment'.owner = segment.owner ∧
      segment'.geometry = segment.geometry ∧ segment.stores ≤ segment'.stores ∧
      (segment.owner ≠ p → segment'.stores = segment.stores)
  filled : (∀ segment ∈ segments, segment.Filled) → ∀ segment ∈ later, segment.Filled
  longer : segments.length ≤ later.length

namespace Grows

theorem refl (p : P) (segments : List (ShmSegment P)) : Grows p segments segments where
  kept := fun _ segment there => ⟨segment, there, rfl, rfl, Nat.le_refl _, fun _ => rfl⟩
  filled := fun filled => filled
  longer := Nat.le_refl _

/-- What the others know stays so. -/
theorem knows (grows : Grows p segments later) (filled : ∀ segment ∈ later, segment.Filled)
    (other : q ≠ p) {pc : ShmPc} (knows : pc.Knows parties segments q) :
    pc.Knows parties later q := by
  cases pc with
  | creating id n =>
      obtain ⟨segment, there, owner, geometry, stores⟩ := knows
      obtain ⟨segment', there', owner', geometry', -, still⟩ := grows.kept id segment there
      exact ⟨segment', there', owner'.trans owner, geometry'.trans geometry,
        (still (owner ▸ other)).trans stores⟩
  | attaching id n =>
      obtain ⟨segment, there, passed, attaches⟩ := knows
      obtain ⟨segment', there', -, geometry', grown, -⟩ := grows.kept id segment there
      exact ⟨segment', there', passed.mono geometry' grown, attaches⟩
  | inUse id unlinks =>
      obtain ⟨segment, there, passed, created⟩ := knows
      obtain ⟨segment', there', owner', geometry', grown, -⟩ := grows.kept id segment there
      refine ⟨segment', there', passed.mono geometry' grown, fun creates => ?_⟩
      obtain ⟨owner, geometry, stores⟩ := created creates
      have most := (filled segment' (List.mem_of_getElem? there')).most
      exact ⟨owner'.trans owner, geometry'.trans geometry, by omega⟩
  | _ => trivial

end Grows

end

namespace ShmWorld

section

variable {Name P : Type} {parties : P → ShmParty Name} {world : ShmWorld Name P} {p : P}

/-- What holds in every state of every schedule. -/
structure Consistent (parties : P → ShmParty Name) (world : ShmWorld Name P) : Prop where
  named : ∀ name id, world.names name = some id → id < world.segments.length
  filled : ∀ segment ∈ world.segments, segment.Filled
  knows : ∀ q, (world.pc q).Knows parties world.segments q

theorem consistent_initial (parties : P → ShmParty Name) : Consistent parties {} where
  named := nofun
  filled := nofun
  knows := fun _ => trivial

/-- A step of `p` that adds to the segments and leaves it knowing what it should. -/
theorem Consistent.moves [DecidableEq P] (consistent : Consistent parties world)
    {names : Name → Option Nat} {segments : List (ShmSegment P)} {pc : ShmPc}
    (grows : Grows p world.segments segments)
    (named : ∀ name id, names name = some id → id < segments.length)
    (knows : pc.Knows parties segments p) :
    Consistent parties
      { names := names, segments := segments, pc := Function.update world.pc p pc } where
  named := named
  filled := grows.filled consistent.filled
  knows := by
    intro q
    by_cases same : q = p
    · obtain rfl := same
      change (Function.update world.pc q pc q).Knows parties segments q
      rw [Function.update_self]
      exact knows
    · change (Function.update world.pc p pc q).Knows parties segments q
      rw [Function.update_of_ne same]
      exact grows.knows (grows.filled consistent.filled) same (consistent.knows q)

/-- A step of `p` that leaves the names alone. -/
theorem Consistent.changes [DecidableEq P] (consistent : Consistent parties world)
    {segments : List (ShmSegment P)} {pc : ShmPc} (grows : Grows p world.segments segments)
    (knows : pc.Knows parties segments p) :
    Consistent parties
      { names := world.names, segments := segments, pc := Function.update world.pc p pc } := by
  refine consistent.moves grows ?_ knows
  intro name id found
  exact Nat.lt_of_lt_of_le (consistent.named name id found) grows.longer

/-- A step of `p` that leaves names and segments alone. -/
theorem Consistent.goTo [DecidableEq P] (consistent : Consistent parties world) {pc : ShmPc}
    (knows : pc.Knows parties world.segments p) : Consistent parties (world.goTo p pc) :=
  consistent.moves (.refl p _) consistent.named knows

theorem pc_goTo [DecidableEq P] (world : ShmWorld Name P) (p : P) (pc : ShmPc) :
    (world.goTo p pc).pc p = pc := by
  unfold goTo
  dsimp only
  rw [Function.update_self]

theorem Consistent.unlink [DecidableEq Name] (consistent : Consistent parties world) (name : Name) :
    Consistent parties (world.unlink name) where
  named := by
    intro other id found
    apply consistent.named other id
    change Function.update world.names name none other = some id at found
    by_cases same : other = name
    · rw [same, Function.update_self] at found
      cases found
    · rwa [Function.update_of_ne same] at found
  filled := consistent.filled
  knows := consistent.knows

theorem grows_openNew [DecidableEq Name] (world : ShmWorld Name P) (p : P) (party : ShmParty Name) :
    Grows p world.segments (world.openNew p party).segments where
  kept := by
    intro id segment there
    have inside := (List.getElem?_eq_some_iff.mp there).1
    refine ⟨segment, ?_, rfl, rfl, Nat.le_refl _, fun _ => rfl⟩
    exact (List.getElem?_append_left inside).trans there
  filled := by
    intro filled segment member
    rcases List.mem_append.mp member with earlier | new
    · exact filled segment earlier
    · obtain rfl := List.mem_singleton.mp new
      exact ⟨rfl, rfl, ⟨[], rfl, fun absent => (absent rfl).elim⟩, Nat.zero_le _⟩
  longer := by
    unfold openNew
    rw [List.length_append]
    exact Nat.le_add_right _ _

/-- One segment is replaced by one that has seen at least as much. -/
theorem grows_modify {segments : List (ShmSegment P)} {id : Nat} {segment : ShmSegment P}
    (there : segments[id]? = some segment) {f : ShmSegment P → ShmSegment P}
    (owner : (f segment).owner = segment.owner)
    (geometry : (f segment).geometry = segment.geometry)
    (grown : segment.stores ≤ (f segment).stores)
    (still : segment.owner ≠ p → (f segment).stores = segment.stores)
    (filled : segment.Filled → (f segment).Filled) : Grows p segments (segments.modify id f) where
  kept := by
    intro id' segment' there'
    rw [List.getElem?_modify]
    by_cases same : id = id'
    · obtain rfl := same
      obtain rfl := Option.some.inj (there.symm.trans there')
      refine ⟨f segment, ?_, owner, geometry, grown, still⟩
      simp only [there, if_pos]
      rfl
    · refine ⟨segment', ?_, rfl, rfl, Nat.le_refl _, fun _ => rfl⟩
      simp only [there', if_neg same]
      rfl
  filled := by
    intro all segment' member
    obtain ⟨id', found⟩ := List.getElem?_of_mem member
    rw [List.getElem?_modify] at found
    obtain ⟨before, there', rfl⟩ := Option.map_eq_some_iff.mp found
    have filledBefore := all before (List.mem_of_getElem? there')
    by_cases same : id = id'
    · obtain rfl := same
      obtain rfl := Option.some.inj (there.symm.trans there')
      rw [if_pos rfl]
      exact filled filledBefore
    · rw [if_neg same]
      exact filledBefore
  longer := by
    rw [List.length_modify]

/-- A store of the owner goes into a ring that nobody uses yet, or not into the ring. -/
theorem filled_store {segment : ShmSegment P} {store : ShmStore}
    (filled : segment.Filled) (next : ShmStore.all[segment.stores]? = some store) :
    ShmSegment.Filled { segment with
      stores := segment.stores + 1
      contents := store.apply segment.geometry segment.contents } := by
  have inside : segment.stores < 8 := (List.getElem?_eq_some_iff.mp next).1
  have stored : (segment.geometry.publication P).after (segment.stores + 1) =
      store.apply segment.geometry segment.stored := Publication.after_succ next
  obtain ⟨users, ring, used⟩ := filled.ring
  refine ⟨?_, ?_, ⟨users, ?_, fun some => Nat.le_succ_of_le (used some)⟩, inside⟩
  · change (store.apply segment.geometry segment.contents).size = _
    rw [ShmSegment.stored, stored]
    cases store <;> first | rfl | exact filled.size
  · change (store.apply segment.geometry segment.contents).header = _
    rw [ShmSegment.stored, stored]
    cases store <;> simp only [ShmStore.apply, filled.header]
  · change (store.apply segment.geometry segment.contents).ring = _
    rw [ShmSegment.stored, stored]
    by_cases idle : users = []
    · rw [idle, List.map_nil, List.append_nil] at ring ⊢
      cases store <;> simp only [ShmStore.apply, ring]
    · have last : segment.stores = 7 := Nat.le_antisymm (Nat.le_of_lt_succ inside) (used idle)
      rw [last] at next
      obtain rfl := Option.some.inj next
      exact ring

theorem filled_touch {segment : ShmSegment P} (filled : segment.Filled) (ready : 7 ≤ segment.stores)
    (p : P) : ShmSegment.Filled { segment with
      contents := { segment.contents with ring := segment.contents.ring ++ [.used p] } } := by
  obtain ⟨users, ring, -⟩ := filled.ring
  refine ⟨filled.size, filled.header, ⟨users ++ [p], ?_, fun _ => ready⟩, filled.most⟩
  change segment.contents.ring ++ [.used p] = segment.stored.ring ++ _
  rw [ring, List.map_append, List.append_assoc]
  rfl

end

section

variable {Name P : Type} [DecidableEq P] {parties : P → ShmParty Name} {world : ShmWorld Name P}

/-- `attach` finds a segment under the name. -/
theorem Consistent.find (consistent : Consistent parties world) {p : P} {id : Nat}
    (role : (parties p).role = .attach) (named : world.names (parties p).name = some id) :
    Consistent parties (world.goTo p (.attaching id 0)) := by
  have there := List.getElem?_eq_getElem (consistent.named _ id named)
  exact consistent.goTo ⟨_, there, (fun _ absent => by cases absent), role⟩

/-- `create` takes the next of its stores. -/
theorem Consistent.construct (consistent : Consistent parties world) {p : P} {id n : Nat}
    {store : ShmStore} (pc : world.pc p = .creating id n)
    (next : ShmStore.all[n]? = some store) :
    Consistent parties ((world.store id (parties p).geometry store).goTo p
      (if n + 1 = ShmStore.all.length then .inUse id ((parties p).role == .create true)
      else .creating id (n + 1))) := by
  have knows := consistent.knows p
  rw [pc] at knows
  obtain ⟨segment, there, owner, geometry, stores⟩ := knows
  have filled := consistent.filled segment (List.mem_of_getElem? there)
  rw [← stores] at next
  have stored := filled_store filled next
  have same : store.apply segment.geometry segment.contents =
      store.apply (parties p).geometry segment.contents := by
    rw [geometry]
  rw [same] at stored
  have grows : Grows p world.segments
      (world.store id (parties p).geometry store).segments :=
    grows_modify there rfl rfl (Nat.le_succ _) (fun other => absurd owner other) fun _ => stored
  have after : (world.store id (parties p).geometry store).segments[id]? = some
      { segment with
        stores := segment.stores + 1
        contents := store.apply (parties p).geometry segment.contents } := by
    unfold ShmWorld.store
    dsimp only
    rw [List.getElem?_modify_eq, there]
    rfl
  refine consistent.changes grows ?_
  split
  · rename_i last
    have full : segment.stores + 1 = 8 := by
      rw [stores]
      exact last
    refine ⟨_, after, ?_, fun _ => ⟨owner, geometry, full⟩⟩
    exact ShmSegment.passed_of_full full (congrArg _ geometry)
      (congrArg (·.capacity.value) geometry)
  · exact ⟨_, after, owner, geometry, congrArg (· + 1) stores⟩

/-- `attach` passes the next of its checks. -/
theorem Consistent.pass (consistent : Consistent parties world) {p : P} {id n : Nat}
    {segment : ShmSegment P} {check : ShmCheck} (pc : world.pc p = .attaching id n)
    (there : world.segments[id]? = some segment) (next : ShmCheck.all[n]? = some check)
    (passes : check.passes (parties p).geometry segment.contents = true) :
    Consistent parties (world.goTo p
      (if n + 1 = ShmCheck.all.length then .inUse id false else .attaching id (n + 1))) := by
  have knows := consistent.knows p
  rw [pc] at knows
  obtain ⟨segment', there', passed, attaches⟩ := knows
  obtain rfl := Option.some.inj (there.symm.trans there')
  have filled := consistent.filled segment (List.mem_of_getElem? there)
  have more : segment.Passed (parties p).geometry (n + 1) := by
    intro check' member
    rw [List.take_add_one, next] at member
    rcases List.mem_append.mp member with earlier | last
    · exact passed check' earlier
    · obtain rfl := List.mem_singleton.mp last
      rw [← filled.passes]
      exact passes
  refine consistent.goTo ?_
  split
  · rename_i last
    rw [last] at more
    exact ⟨segment, there, more, fun creates => absurd attaches creates⟩
  · exact ⟨segment, there, more, attaches⟩

/-- The ring is used. -/
theorem Consistent.use (consistent : Consistent parties world) {p : P} {id : Nat} {unlinks : Bool}
    (pc : world.pc p = .inUse id unlinks) : Consistent parties (world.touch id p) := by
  have knows := consistent.knows p
  rw [pc] at knows
  obtain ⟨segment, there, passed, created⟩ := knows
  have grows : Grows p world.segments (world.touch id p).segments :=
    grows_modify there rfl rfl (Nat.le_refl _) (fun _ => rfl)
      fun filled => filled_touch filled passed.all.1 p
  have after : (world.touch id p).segments[id]? = some { segment with
      contents := { segment.contents with ring := segment.contents.ring ++ [.used p] } } := by
    unfold ShmWorld.touch
    dsimp only
    rw [List.getElem?_modify_eq, there]
    rfl
  have knows' : (ShmPc.inUse id unlinks).Knows parties (world.touch id p).segments p :=
    ⟨_, after, passed, created⟩
  have moved := consistent.changes grows knows'
  rw [← pc, Function.update_eq_self] at moved
  exact moved

variable [DecidableEq Name]

/-- `create` makes a segment of its own under a name that is free. -/
theorem Consistent.reserve (consistent : Consistent parties world) (p : P) :
    Consistent parties
      ((world.openNew p (parties p)).goTo p (.creating world.segments.length 0)) := by
  refine consistent.moves (grows_openNew world p (parties p)) ?_ ?_
  · intro name id found
    have longer : (world.openNew p (parties p)).segments.length = world.segments.length + 1 :=
      List.length_append
    unfold openNew at found
    dsimp only at found
    rw [longer]
    by_cases same : name = (parties p).name
    · rw [same, Function.update_self] at found
      cases found
      exact Nat.lt_succ_self _
    · rw [Function.update_of_ne same] at found
      exact Nat.lt_succ_of_lt (consistent.named name id found)
  · exact ⟨_, List.getElem?_concat_length, rfl, rfl, rfl⟩

/-- A step of `create`, of `attach` or of the destructor. -/
theorem Consistent.advance (consistent : Consistent parties world) (p : P) (fails : Bool) :
    Consistent parties (world.advance p (parties p) fails) := by
  have gone : Consistent parties (world.goTo p .gone) := consistent.goTo trivial
  have unlinked : Consistent parties (world.unlink (parties p).name) :=
    consistent.unlink (parties p).name
  unfold ShmWorld.advance
  cases pc : world.pc p with
  | idle =>
      dsimp only
      cases role : (parties p).role with
      | create unlinkOnClose => exact unlinked.goTo trivial
      | attach =>
          dsimp only
          cases named : world.names (parties p).name with
          | none => exact gone
          | some id =>
              dsimp only
              split
              · exact gone
              · exact consistent.find role named
  | unlinked =>
      dsimp only
      cases world.names (parties p).name with
      | some id => exact gone
      | none =>
          dsimp only
          split
          · exact gone
          · exact consistent.reserve p
  | creating id n =>
      dsimp only
      split
      · exact unlinked.goTo trivial
      · split
        · exact gone
        · cases next : ShmStore.all[n]? with
          | none => exact consistent
          | some store => exact consistent.construct pc next
  | attaching id n =>
      dsimp only
      split
      · rename_i check segment next there
        split
        · exact gone
        · rename_i passes
          simp only [Bool.or_eq_true, not_or, Bool.not_eq_true, Bool.not_eq_false'] at passes
          have passed := consistent.pass pc there next passes.2
          split
          · rename_i last
            rwa [if_pos last] at passed
          · rename_i more
            rwa [if_neg more] at passed
      · exact consistent
  | unlinking => exact unlinked.goTo trivial
  | inUse id unlinks => exact consistent
  | gone => exact consistent

/-- Step lemma: every entry of a schedule keeps the invariant. -/
theorem Consistent.step (consistent : Consistent parties world) (entry : P × ShmInput) :
    Consistent parties (world.step parties entry) := by
  obtain ⟨p, input⟩ := entry
  cases input with
  | advance fails => exact consistent.advance p fails
  | use =>
      unfold ShmWorld.step
      dsimp only
      cases pc : world.pc p with
      | inUse id unlinks => exact consistent.use pc
      | _ => exact consistent
  | close =>
      unfold ShmWorld.step
      dsimp only
      cases world.pc p with
      | inUse id unlinks =>
          dsimp only
          split <;> exact consistent.goTo trivial
      | _ => exact consistent
  | crash => exact consistent.goTo trivial

/-- Run lemma: every schedule keeps the invariant. -/
theorem Consistent.run (consistent : Consistent parties world) (schedule : List (P × ShmInput)) :
    Consistent parties (world.run parties schedule) := by
  induction schedule generalizing world with
  | nil => exact consistent
  | cons entry rest ih => exact ih (consistent.step entry)

/--
Of any number of rings created, attached, used, closed and abandoned under any
names in any order, one that gets as far as being used has slots of the size and
in the number its user was built for, in a segment of the bytes the user has mapped,
and its memory was zeroed once and constructed once, before anyone used it.
-/
theorem rings_constructed_before_use (parties : P → ShmParty Name)
    (schedule : List (P × ShmInput)) :
    let world := ({} : ShmWorld Name P).run parties schedule
    (∀ p id unlinks, world.pc p = .inUse id unlinks →
      ∃ segment, world.segments[id]? = some segment ∧
      segment.geometry.slotBytes = (parties p).geometry.slotBytes ∧
      segment.geometry.capacity.value = (parties p).geometry.capacity.value ∧
      segment.contents.size = (parties p).geometry.layoutBytes ∧ segment.Constructed) ∧
    ∀ segment ∈ world.segments, ∀ q, .used q ∈ segment.contents.ring →
      segment.Constructed := by
  intro world
  have consistent : Consistent parties world := (consistent_initial parties).run schedule
  have constructed : ∀ segment ∈ world.segments, 7 ≤ segment.stores →
      segment.contents.size = segment.geometry.layoutBytes ∧ segment.Constructed := by
    intro segment member done
    have filled := consistent.filled segment member
    obtain ⟨users, ring, -⟩ := filled.ring
    have both : segment.stored.ring = [.zeroed, .constructed] := by
      refine (segment.geometry.ring_after segment.stores).trans (List.take_of_length_le ?_)
      change 2 ≤ segment.stores - 1
      omega
    rw [both] at ring
    exact ⟨filled.size.trans (ShmGeometry.size_after (by omega)), users, ring⟩
  constructor
  · intro p id unlinks pc
    have knows := consistent.knows p
    rw [pc] at knows
    obtain ⟨segment, there, passed, -⟩ := knows
    obtain ⟨done, slots, capacity⟩ := passed.all
    obtain ⟨size, users⟩ := constructed segment (List.mem_of_getElem? there) done
    rw [ShmGeometry.layoutBytes_congr slots capacity] at size
    exact ⟨segment, there, slots, capacity, size, users⟩
  · intro segment member q used
    obtain ⟨users, ring, ready⟩ := (consistent.filled segment member).ring
    by_cases idle : users = []
    · rw [idle, List.map_nil, List.append_nil] at ring
      have filling := ring.trans (segment.geometry.ring_after segment.stores)
      rw [filling] at used
      cases List.mem_of_mem_take used with
      | tail _ later => cases later with
        | tail _ absent => cases absent
    · exact (constructed segment member (ready idle)).2

/-! ## Who is accepted -/

/-- Once it has thrown a party does nothing more. -/
theorem run_gone (parties : P → ShmParty Name) {p : P} (gone : world.pc p = .gone) (n : Nat) :
    world.run parties (List.replicate n (p, .advance false)) = world := by
  induction n with
  | zero => rfl
  | succ n ih =>
      have still : world.step parties (p, .advance false) = world := by
        unfold step advance
        dsimp only
        rw [gone]
      change (world.step parties (p, .advance false)).run parties _ = world
      rw [still]
      exact ih

theorem step_attaching (parties : P → ShmParty Name) {p : P} {id n : Nat}
    {segment : ShmSegment P} {check : ShmCheck} (pc : world.pc p = .attaching id n)
    (there : world.segments[id]? = some segment) (next : ShmCheck.all[n]? = some check) :
    world.step parties (p, .advance false) = world.goTo p
      (if check.passes (parties p).geometry segment.contents then
        if n = 4 then .inUse id false else .attaching id (n + 1)
      else .gone) := by
  unfold step advance
  dsimp only
  rw [pc]
  dsimp only
  rw [next, there]
  dsimp only
  rw [Bool.false_and, Bool.false_or]
  cases check.passes (parties p).geometry segment.contents with
  | false => rfl
  | true =>
      rw [if_neg (by decide), if_pos rfl]
      by_cases last : n = 4
      · rw [if_pos last]
        exact if_pos (congrArg (· + 1) last)
      · rw [if_neg last]
        exact if_neg fun same => last (Nat.succ.inj same)

/-- Undisturbed, `attach` ends where its remaining checks send it. -/
theorem run_attaching (parties : P → ShmParty Name) {p : P} {id : Nat} {segment : ShmSegment P}
    (there : world.segments[id]? = some segment) {n left : Nat} (counted : n + left = 4)
    (pc : world.pc p = .attaching id n) :
    (world.run parties (List.replicate (left + 1) (p, .advance false))).pc p =
      if (ShmCheck.all.drop n).all fun check =>
          check.passes (parties p).geometry segment.contents
      then .inUse id false else .gone := by
  induction left generalizing world n with
  | zero =>
      obtain rfl : n = 4 := counted
      change (world.step parties (p, .advance false)).pc p = _
      have next : ShmCheck.all[4]? = some .capacity := rfl
      rw [step_attaching parties pc there next, pc_goTo, if_pos rfl]
      simp [ShmCheck.all]
  | succ left ih =>
      have inside : n < ShmCheck.all.length := by
        change n < 5
        omega
      have next := List.getElem?_eq_getElem inside
      rw [List.drop_eq_getElem_cons inside, List.all_cons]
      change ((world.step parties (p, .advance false)).run parties _).pc p = _
      rw [step_attaching parties pc there next]
      cases ShmCheck.all[n].passes (parties p).geometry segment.contents with
      | false =>
          have gone := pc_goTo world p .gone
          change ((world.goTo p .gone).run parties _).pc p = .gone
          rw [run_gone parties gone]
          exact gone
      | true =>
          rw [if_pos rfl, if_neg (by omega)]
          have still : (world.goTo p (.attaching id (n + 1))).segments[id]? = some segment := there
          exact ih still (by omega) (pc_goTo world p (.attaching id (n + 1)))

/--
After any schedule, while the creator of the segment that a name stands for uses
it, `attach` of that name, left to itself, returns that segment exactly if it was
built for slots of the same size and number; otherwise it throws.
-/
theorem attach_accepts_iff (parties : P → ShmParty Name) (schedule : List (P × ShmInput))
    {world : ShmWorld Name P} (ran : ({} : ShmWorld Name P).run parties schedule = world)
    {p q : P} {id : Nat} {unlinks : Bool} (created : world.pc q = .inUse id unlinks)
    (creates : (parties q).role ≠ .attach) (named : world.names (parties p).name = some id)
    (attaches : (parties p).role = .attach) (idle : world.pc p = .idle) :
    (world.run parties (List.replicate 6 (p, .advance false))).pc p =
      if (parties p).geometry.slotBytes = (parties q).geometry.slotBytes ∧
        (parties p).geometry.capacity.value = (parties q).geometry.capacity.value
      then .inUse id false else .gone := by
  have consistent : Consistent parties world := by
    rw [← ran]
    exact (consistent_initial parties).run schedule
  have knows := consistent.knows q
  rw [created] at knows
  obtain ⟨segment, there, -, created⟩ := knows
  obtain ⟨-, geometry, full⟩ := created creates
  have filled := consistent.filled segment (List.mem_of_getElem? there)
  have found : world.step parties (p, .advance false) = world.goTo p (.attaching id 0) := by
    unfold step advance
    dsimp only
    rw [idle]
    dsimp only
    rw [attaches]
    dsimp only
    rw [named]
    rfl
  change ((world.step parties (p, .advance false)).run parties _).pc p = _
  have still : (world.goTo p (.attaching id 0)).segments[id]? = some segment := there
  rw [found, run_attaching parties still (Nat.zero_add 4) (pc_goTo world p (.attaching id 0))]
  congr 1
  rw [← geometry]
  apply propext
  constructor
  · intro passed
    have all : segment.Passed (parties p).geometry 5 := by
      intro check member
      rw [← filled.passes]
      exact List.all_eq_true.mp passed check member
    obtain ⟨-, slots, capacity⟩ := all.all
    exact ⟨slots.symm, capacity.symm⟩
  · rintro ⟨slots, capacity⟩
    apply List.all_eq_true.mpr
    intro check member
    rw [filled.passes]
    exact ShmSegment.passed_of_full full slots.symm capacity.symm check member

/-- Of two binaries the one built for half the slots is turned away. -/
theorem attach_accepts_iff_halfCapacity :
    let full : ShmGeometry := .ofFrames ⟨1024, by decide, 10, rfl⟩
    let half : ShmGeometry := .ofFrames ⟨512, by decide, 9, rfl⟩
    let parties : Fin 3 → ShmParty Unit
      | 0 => ⟨(), full, .create true⟩
      | 1 => ⟨(), full, .attach⟩
      | 2 => ⟨(), half, .attach⟩
    let world := ({} : ShmWorld Unit (Fin 3)).run parties (List.replicate 10 (0, .advance false))
    (world.run parties (List.replicate 6 (1, .advance false))).pc 1 = .inUse 0 false ∧
      (world.run parties (List.replicate 6 (2, .advance false))).pc 2 = .gone := by
  intro full half parties world
  have created : world.pc 0 = .inUse 0 true := by decide
  have creates : (parties 0).role ≠ .attach := by decide
  constructor
  · exact (attach_accepts_iff parties _ rfl created creates rfl rfl rfl).trans (if_pos ⟨rfl, rfl⟩)
  · exact (attach_accepts_iff parties _ rfl created creates rfl rfl rfl).trans
      (if_neg fun same => absurd same.2 (by decide))

end

end ShmWorld

end VoiceHotPath
