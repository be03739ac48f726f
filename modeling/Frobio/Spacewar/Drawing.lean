/-
This file models the loop of `net-games/spacewario.c`: how the ships and missiles move, and how
they are drawn on the screen and removed again, by exclusive or.

The rows of a ship wrap at the edges of the screen, and each row is two bytes wide. The first of the
two is always on the screen. The second is not wrapped, so it is off the screen when the first is
the last byte of it, and this is so just for ships at four places around the corners.
-/

import Frobio.Lib.Loop
import Frobio.Spacewar.Tables

namespace Frobio.Drawing

open Loop

/-! ### Bodies -/

def NUM_SHIPS : Nat := 4

/-- `struct body`, of which `word` and `int` have 16 bits. -/
structure Body where
  x : UInt16
  y : UInt16
  r : Int16
  s : Int16
  score : Int16
  direction : UInt8
  ttl : UInt8
  dings : Nat → UInt16

def W : UInt16 := 128
def H : UInt16 := 96

def XWRAP : UInt16 := W * 256
def YWRAP : UInt16 := H * 256

def SpeedLimit : Int16 := 6000

def ArithShiftRight (x : Int16) : Nat → UInt16
  | 0 => x.toUInt16
  | count + 1 =>
    let z := ArithShiftRight x count >>> 1
    if x.toUInt16 &&& 0x8000 ≠ 0 then z ||| 0x8000 else z

/-- A number of two bytes in the table `Gravity`. -/
def gravityAt (index : UInt16) : Int16 :=
  ((Gravity.getD index.toNat 0).toUInt16 <<< 8).toInt16 +
    (Gravity.getD (index + 1).toNat 0).toUInt16.toInt16

def atMost (limit a : Int16) : Int16 := if limit < a then limit else a

def ComputeGravity (x y : UInt16) : Int16 × Int16 :=
  let x := x >>> 8
  let y := y >>> 8
  let tx := if W / 2 < x then W - 1 - x else x
  let ty := if H / 2 < y then H - 1 - y else y
  let strength : Int16 × Int16 :=
    if W / 2 - W / 8 ≤ tx ∧ H / 2 - H / 8 ≤ ty then
      let index := ((tx - (W / 2 - W / 8)) <<< 2) + ((ty - (H / 2 - H / 8)) <<< 5)
      (gravityAt index, gravityAt (index + 2))
    else
      let tiny : Int16 := if tx + ty < H / 4 then 1 else if tx + ty < H / 2 then 2 else 3
      (tiny, tiny)
  let gx := atMost 1000 strength.1
  let gy := atMost 1000 strength.2
  (if x < W / 2 then gx else -gx, if y < H / 2 then gy else -gy)

/-- The two loops that bring a coordinate back on the torus. -/
def wrap (rounds : Nat) (size : UInt16) (new : Int16) : Option Int16 :=
  (whileLoop (fun new => new < 0) (fun new => some (new.toUInt16 + size).toInt16) rounds new).bind
    (whileLoop (fun new => size ≤ new.toUInt16)
      (fun new => some (new.toUInt16 - size).toInt16) rounds)

def clamp (speed : Int16) : Int16 :=
  if speed < -SpeedLimit then -SpeedLimit else if SpeedLimit < speed then SpeedLimit else speed

/-- The body at its new place, with the gravity there. -/
def moved (useGravity : Bool) (p : Body) (x y : Int16) : Body :=
  let g := if useGravity then ComputeGravity x.toUInt16 y.toUInt16 else (0, 0)
  { p with
    r := clamp (p.r + g.1)
    s := clamp (p.s + g.2)
    x := x.toUInt16
    y := y.toUInt16 }

/-- `none` if a loop does not end in as many rounds. -/
def AdvanceBody (rounds : Nat) (useGravity : Bool) (p : Body) : Option Body :=
  (wrap rounds XWRAP (p.x.toInt16 + (ArithShiftRight p.r 3).toInt16)).bind fun x =>
  (wrap rounds YWRAP (p.y.toInt16 + (ArithShiftRight p.s 3).toInt16)).map fun y =>
    moved useGravity p x y

/-! ### The loop of the game -/

/-- `Vars`, and the variables of `Run`. -/
structure Game where
  mode : UInt8
  ship : Nat → Body
  missile : Nat → Body
  g : UInt16
  embargo : UInt16

def Game.setShip (game : Game) (i : Nat) (body : Body) : Game :=
  { game with ship := Function.update game.ship i body }

def Game.setMissile (game : Game) (i : Nat) (body : Body) : Game :=
  { game with missile := Function.update game.missile i body }

/-- The letter S, for the game of one player. -/
def solitaire : UInt8 := 0x53

def Game.myNum (game : Game) : Nat := if game.mode = solitaire then 1 else (game.mode - 0x31).toNat

def AccelR : List Int16 := [40, 32, 24, 8, 0, -8, -24, -32, -40, -32, -24, -8, 0, 8, 24, 32]
def AccelS : List Int16 := [0, 8, 24, 32, 40, 32, 24, 8, 0, -8, -24, -32, -40, -32, -24, -8]

def accelR (p : Body) : Int16 := AccelR.getD p.direction.toNat 0
def accelS (p : Body) : Int16 := AccelS.getD p.direction.toNat 0

def FireMissile (who : Nat) (game : Game) : Game :=
  let s := game.ship who
  game.setMissile who { s with
    x := s.x + (30 * accelR s).toUInt16
    y := s.y - (30 * accelS s).toUInt16
    r := s.r + 30 * accelR s
    s := s.s - 30 * accelS s
    ttl := 148 }

def created (i : Nat) (game : Game) : Game :=
  game.setShip i { game.ship i with
    x := 0x0800
    y := ((i + 1).toUInt16 <<< 12) + ((i + 1).toUInt16 <<< 10)
    r := 30
    s := 0
    ttl := if i = game.myNum then 255 else 0 }

/-- The game after the ships were created. Before, all of `Vars` is zero but for the mode. -/
def start (mode : UInt8) : Game :=
  let zero : Body := ⟨0, 0, 0, 0, 0, 0, 0, fun _ => 0⟩
  (List.range NUM_SHIPS).foldl (fun game i =>
    if game.mode = solitaire ∨ i = game.myNum then FireMissile i (created i game)
    else created i game) ⟨mode, fun _ => zero, fun _ => zero, 0, 0⟩

def KEY_Y : UInt8 := 2
def KEY_UP : UInt8 := 8
def KEY_LEFT : UInt8 := 32
def KEY_RIGHT : UInt8 := 64
def KEY_SPACE : UInt8 := 128

/-- What the keys of the wormhole, for turning, and of the engine do to the ship. -/
def steer (keys : UInt8) (my : Body) : Body :=
  let my := if keys &&& KEY_Y = 0 then my else { my with
    direction := 8 ^^^ my.direction
    x := W / 2 - 1 - my.x
    y := H / 2 - 1 - my.y
    r := -my.r
    s := -my.s
    score := my.score - 1 }
  let my := if keys &&& KEY_LEFT = 0 then my else
    { my with direction := (my.direction + 1) &&& 15 }
  let my := if keys &&& KEY_RIGHT = 0 then my else
    { my with direction := (my.direction - 1) &&& 15 }
  if keys &&& KEY_UP = 0 then my else
    { my with r := my.r + 2 * accelR my, s := my.s - 2 * accelS my }

def keyboard (keys : UInt8) (game : Game) : Game :=
  let game := game.setShip game.myNum (steer keys (game.ship game.myNum))
  if keys &&& KEY_SPACE ≠ 0 ∧ game.embargo < game.g then FireMissile game.myNum game else game

def advance (rounds : Nat) (game : Game) : Option Game :=
  forLoop (fun game ship =>
    (AdvanceBody rounds true (game.ship ship)).bind fun body =>
    (AdvanceBody rounds false (game.missile ship)).map fun missile =>
      (game.setShip ship body).setMissile ship missile) 0 NUM_SHIPS game

def distance (a b : UInt16) : UInt16 := if b < a then a - b else b - a

/-- Is the ship hit by the missile of `who`? -/
def hits (game : Game) (who i : Nat) : Bool :=
  let m := game.missile who
  let p := game.ship i
  i ≠ who ∧ p.ttl ≠ 0 ∧ distance m.x p.x + distance m.y p.y < 0x0400

/-- The game with the hits, and whether there was any. -/
def DetectHits (game : Game) (who : Nat) : Game × Bool :=
  (List.range NUM_SHIPS).foldl (fun (state : Game × Bool) i =>
    if hits state.1 who i then
      let s := state.1.ship who
      let m := state.1.missile who
      (((state.1.setShip who { s with
          score := s.score + 3
          dings := Function.update s.dings i (s.dings i + 2) }).setMissile who
          { m with ttl := 0 }), true)
    else state) (game, false)

/-- The missiles that are ours to follow, and what they hit. -/
def follow (game : Game) : Game :=
  (List.range NUM_SHIPS).foldl (fun game who =>
    if (game.mode = solitaire ∨ who = game.myNum) ∧ (game.missile who).ttl ≠ 0 ∧
        (game.mode = solitaire ∨ game.embargo < game.g) then
      let found := DetectHits game who
      if found.2 ∧ game.mode ≠ solitaire then { found.1 with embargo := game.g + 55 } else found.1
    else game) game

/-- From `LOOP` to `DRAW`. -/
def toDraw (rounds : Nat) (keys : UInt8) (game : Game) : Option Game :=
  (advance rounds (keyboard keys game)).map follow

/-- `struct broadcast_payload` -/
structure Payload where
  magic_aa : UInt8
  ship_num : UInt8
  ship : Body
  missile : Body

def Payload.accepted (p : Payload) : Prop := p.magic_aa = 0xAA ∧ p.ship_num.toNat < NUM_SHIPS

instance (p : Payload) : Decidable p.accepted := inferInstanceAs (Decidable (_ ∧ _))

def ProcessIncomingPacket (p : Payload) (game : Game) : Game :=
  if p.accepted then
    (game.setShip p.ship_num.toNat p.ship).setMissile p.ship_num.toNat p.missile
  else game

def CheckIncomingPackets (packet : Option Payload) (game : Game) : Game :=
  if game.mode = solitaire then game
  else packet.elim game fun p => ProcessIncomingPacket p game

def depreciated (body : Body) : Body :=
  if body.ttl = 0 then body else { body with ttl := body.ttl - 1 }

def depreciate (game : Game) : Game :=
  { game with
    ship := fun i =>
      if NUM_SHIPS ≤ i then game.ship i
      else if game.mode = solitaire ∨ (game.mode - 0x31).toNat = i then
        { game.ship i with ttl := 255 }
      else depreciated (game.ship i)
    missile := fun i =>
      if NUM_SHIPS ≤ i then game.missile i else depreciated (game.missile i) }

/-- Turn a ship to a direction that is given from that of the ship 0. -/
def veer (who : Nat) (change : UInt8) (game : Game) : Game :=
  game.setShip who { game.ship who with
    direction := ((game.ship 0).direction + change) &&& 15 }

/-- What the other ships do in the game of one player. The cases of the turns fall through. -/
def others (game : Game) : Game :=
  if game.mode = solitaire then
    match (game.g &&& 255).toNat with
    | 20 => FireMissile 0 game
    | 90 => FireMissile 2 game
    | 140 => FireMissile 3 game
    | 120 => veer 2 13 (veer 3 7 (veer 0 1 game))
    | 190 => veer 2 13 (veer 3 7 game)
    | 40 => veer 2 13 game
    | _ => game
  else game

/-- From `UNDRAW` to the end of the loop. -/
def afterDraw (packet : Option Payload) (game : Game) : Game :=
  let game := depreciate (CheckIncomingPackets packet game)
  others { game with g := game.g + 1 }

/-- The keys that are down, and the packet that is waiting, in one round of the loop. -/
structure Turn where
  keys : UInt8
  packet : Option Payload

/-- What the ships and missiles are, each time that `DrawAll` draws them. -/
def drawn (rounds : Nat) : List Turn → Game → Option (List Game)
  | [], _ => some []
  | turn :: turns, game =>
    (toDraw rounds turn.keys game).bind fun game =>
      (drawn rounds turns (afterDraw turn.packet game)).map fun later => game :: later

/-! ### Drawing -/

def VDG_RAM : UInt16 := 0x0400

/-- The drawing reads a byte of the table `Ships`, or changes a byte of the memory. -/
inductive Access
  | table (index : UInt16)
  | pxor (addr : UInt16) (pattern : UInt8)

/-- The mask and the index of `DrawShip`, and the accesses so far. -/
structure Brush where
  mask : UInt8
  index : UInt16
  accesses : List Access

/-- The two comparisons of `DrawShip` that wrap an address. -/
def onScreen (v : UInt16) : UInt16 :=
  let v := if v < VDG_RAM + 3 * 1024 then v + 3 * 1024 else v
  if VDG_RAM + 3 * 1024 ≤ v then v - 3 * 1024 else v

/-- One row of a ship; `row` is where it is below the first one. -/
def drawRow (ship : Nat) (first : UInt16) (brush : Brush) (row : UInt16) : Brush :=
  let mask : UInt8 :=
    if ship = 3 then if row = 64 then 0xAA else if row = 96 then 0x55 else brush.mask
    else brush.mask
  let v := onScreen (first + row)
  ⟨mask, brush.index + 2, brush.accesses ++
    [.table brush.index, .pxor v (mask &&& Ships.getD brush.index.toNat 0),
      .table (brush.index + 1),
      .pxor (v + 1) (mask &&& Ships.getD (brush.index + 1).toNat 0)]⟩

def DrawSpot (x y color : UInt8) : List Access :=
  let xshift := x &&& 3
  let xdist := x >>> 2
  [.pxor (VDG_RAM + xdist.toUInt16 + (y.toUInt16 <<< 5)) (color <<< ((3 - xshift) <<< 1))]

/-- Of the loops for the height, each changes the place in the row. -/
def DrawSpot2 (rounds : Nat) (x y : Int16) (color : UInt8) : Option (List Access) :=
  (whileLoop (fun x => x < 0) (fun x => some (x + 128)) rounds x).bind fun x =>
  (whileLoop (fun _ => y < 0) (fun x => some (x + 96)) rounds x).bind fun x =>
  (whileLoop (fun x => 128 < x) (fun x => some (x - 128)) rounds x).bind fun x =>
  (whileLoop (fun _ => 96 < y) (fun x => some (x - 96)) rounds x).map fun x =>
    DrawSpot x.toUInt16.toUInt8 y.toUInt16.toUInt8 color

def firstMask (ship : Nat) : UInt8 := if ship = 0 then 0x55 else if ship = 1 then 0xAA else 0xFF

def DrawShip (rounds : Nat) (p : Body) (ship : Nat) (isaMissile : Bool) : Option (List Access) :=
  if p.ttl = 0 then some []
  else
    let x := ((p.x >>> 8) - 2).toInt16
    let y := ((p.y >>> 8) - 2).toInt16
    let xshift := (x &&& 3).toUInt16
    let xdist := (x >>> 2).toUInt16
    let index := xshift * 10 + p.direction.toUInt16 * 40
    let yval := y.toUInt16
    if isaMissile then DrawSpot2 rounds (x + 2) (y + 2) 2
    else
      some ((([0, 32, 64, 96, 128] : List UInt16).foldl (drawRow ship (VDG_RAM + xdist + (yval <<< 5)))
        ⟨firstMask ship, index, []⟩).accesses)

def DrawAll (rounds : Nat) (game : Game) : Option (List Access) :=
  ((List.range NUM_SHIPS).mapM fun ship =>
    (DrawShip rounds (game.ship ship) ship false).bind fun first =>
    (DrawShip rounds (game.missile ship) ship true).map fun second => first ++ second).map
      List.flatten

def paint (accesses : List Access) (memory : UInt16 → UInt8) : UInt16 → UInt8 :=
  accesses.foldl (fun memory access =>
    match access with
    | .table _ => memory
    | .pxor addr pattern => Function.update memory addr (memory addr ^^^ pattern)) memory

/-! ### Bodies stay on the torus -/

/-- What `AdvanceBody` promises of a body. -/
structure InRange (p : Body) : Prop where
  x : p.x.toNat < 128 * 256
  y : p.y.toNat < 96 * 256
  r : -6000 ≤ p.r.toInt ∧ p.r.toInt ≤ 6000
  s : -6000 ≤ p.s.toInt ∧ p.s.toInt ≤ 6000

theorem toInt_eq (v : Int16) : v.toInt =
    if v.toUInt16.toNat < 32768 then (v.toUInt16.toNat : Int) else v.toUInt16.toNat - 65536 := by
  have value : v.toInt = if 2 * v.toUInt16.toNat < 2 ^ 16 then (v.toUInt16.toNat : Int)
      else v.toUInt16.toNat - (2 ^ 16 : Nat) := BitVec.toInt_eq_toNat_cond v.toBitVec
  rw [value]
  split_ifs <;> omega

theorem neg_iff (v : Int16) : v < 0 ↔ 32768 ≤ v.toUInt16.toNat := by
  have bound := v.toUInt16.toNat_lt
  rw [Int16.lt_iff_toInt_lt, toInt_eq, Int16.toInt_zero]
  split_ifs <;> omega

/-- Both loops end, as the first brings what is below zero nearer to it. -/
theorem exists_wrap {rounds : Nat} (enough : 32768 ≤ rounds) {size : UInt16}
    (positive : 0 < size.toNat) (half : size.toNat ≤ 32768) (new : Int16) :
    ∃ final, wrap rounds size new = some final ∧ final.toUInt16.toNat < size.toNat := by
  have up : ∃ middle, whileLoop (fun new : Int16 => new < 0)
      (fun new => some (new.toUInt16 + size).toInt16) rounds new = some middle ∧ True ∧
      decide (middle < 0) = false := by
    refine whileLoop_invariant (fun _ => True)
      (fun new => if 32768 ≤ new.toUInt16.toNat then 65536 - new.toUInt16.toNat else 0)
      ?_ trivial ?_
    · intro new goes _
      have below := (neg_iff new).mp (of_decide_eq_true goes)
      have bound := new.toUInt16.toNat_lt
      refine ⟨_, rfl, trivial, ?_⟩
      rw [UInt16.toUInt16_toInt16, UInt16.toNat_add]
      split_ifs <;> omega
    · have bound := new.toUInt16.toNat_lt
      split_ifs <;> omega
  obtain ⟨middle, reached, -, stops⟩ := up
  have nonneg := mt (neg_iff middle).mpr (of_decide_eq_false stops)
  have down : ∃ final, whileLoop (fun new : Int16 => size ≤ new.toUInt16)
      (fun new => some (new.toUInt16 - size).toInt16) rounds middle = some final ∧ True ∧
      decide (size ≤ final.toUInt16) = false := by
    refine whileLoop_invariant (fun _ => True) (fun new => new.toUInt16.toNat) ?_ trivial (by omega)
    intro new goes _
    have large : size ≤ new.toUInt16 := of_decide_eq_true goes
    refine ⟨_, rfl, trivial, ?_⟩
    rw [UInt16.toUInt16_toInt16, UInt16.toNat_sub_of_le _ _ large]
    have more := UInt16.le_iff_toNat_le.mp large
    omega
  obtain ⟨final, done, -, ends⟩ := down
  refine ⟨final, ?_, ?_⟩
  · rw [wrap, reached]
    exact done
  · exact not_le.mp fun more => of_decide_eq_false ends (UInt16.le_iff_toNat_le.mpr more)

theorem clamp_range (speed : Int16) :
    -6000 ≤ (clamp speed).toInt ∧ (clamp speed).toInt ≤ 6000 := by
  have limit : SpeedLimit.toInt = 6000 := rfl
  have negative : (-SpeedLimit).toInt = -6000 := by decide
  unfold clamp
  split_ifs with low high
  · omega
  · omega
  · rw [Int16.lt_iff_toInt_lt, negative] at low
    rw [Int16.lt_iff_toInt_lt, limit] at high
    omega

theorem exists_advanceBody {rounds : Nat} (enough : 32768 ≤ rounds) (useGravity : Bool)
    (p : Body) : ∃ next, AdvanceBody rounds useGravity p = some next ∧ InRange next ∧
      next.direction = p.direction := by
  have width : XWRAP.toNat = 128 * 256 := rfl
  have height : YWRAP.toNat = 96 * 256 := rfl
  obtain ⟨x, wrapped, inWidth⟩ := exists_wrap enough (show 0 < XWRAP.toNat by omega) (by omega)
    (p.x.toInt16 + (ArithShiftRight p.r 3).toInt16)
  obtain ⟨y, wrapped', inHeight⟩ := exists_wrap enough (show 0 < YWRAP.toNat by omega) (by omega)
    (p.y.toInt16 + (ArithShiftRight p.s 3).toInt16)
  rw [width] at inWidth
  rw [height] at inHeight
  refine ⟨moved useGravity p x y, ?_, ⟨inWidth, inHeight, clamp_range _, clamp_range _⟩, rfl⟩
  rw [AdvanceBody, wrapped, Option.bind_some, wrapped', Option.map_some]

/-! ### Invariants of the loop -/

/-- Every ship and every missile is as it should be. -/
def Each (holds : Nat → Body → Prop) (game : Game) : Prop :=
  ∀ i, holds i (game.ship i) ∧ holds i (game.missile i)

/-- The direction is one of sixteen. -/
def Directed (_ : Nat) (p : Body) : Prop := p.direction.toNat < 16

/-- Of the first `count` ships and missiles, each is in range. -/
def Advanced (count i : Nat) (p : Body) : Prop := (i < count → InRange p) ∧ Directed i p

section
variable {holds : Nat → Body → Prop} {game : Game}

theorem Each.setShip (each : Each holds game) {i : Nat} {body : Body} (new : holds i body) :
    Each holds (game.setShip i body) := by
  intro j
  refine ⟨?_, (each j).2⟩
  show holds j (Function.update game.ship i body j)
  rw [Function.update_apply]
  split_ifs with same
  · exact same ▸ new
  · exact (each j).1

theorem Each.setMissile (each : Each holds game) {i : Nat} {body : Body} (new : holds i body) :
    Each holds (game.setMissile i body) := by
  intro j
  refine ⟨(each j).1, ?_⟩
  show holds j (Function.update game.missile i body j)
  rw [Function.update_apply]
  split_ifs with same
  · exact same ▸ new
  · exact (each j).2

theorem Each.foldl {Index : Type} {step : Game → Index → Game} {indices : List Index}
    (each : Each holds game)
    (kept : ∀ game index, Each holds game → Each holds (step game index)) :
    Each holds (indices.foldl step game) := by
  induction indices generalizing game with
  | nil => exact each
  | cons index indices inductionHypothesis => exact inductionHypothesis (kept game index each)

theorem Each.fireMissile (each : Each Directed game) (who : Nat) :
    Each Directed (FireMissile who game) :=
  each.setMissile (each who).1

theorem each_start (mode : UInt8) : Each Directed (start mode) := by
  refine Each.foldl (fun i => ⟨?_, ?_⟩) fun game i each => ?_
  · show (0 : UInt8).toNat < 16
    decide
  · show (0 : UInt8).toNat < 16
    decide
  · have ships : Each Directed (created i game) := each.setShip (each i).1
    split_ifs
    · exact ships.fireMissile i
    · exact ships

theorem directed_and (d : UInt8) : (d &&& 15).toNat < 16 := by
  rw [UInt8.toNat_and]
  exact lt_of_le_of_lt Nat.and_le_right (by decide)

theorem directed_steer (keys : UInt8) (my : Body) (directed : my.direction.toNat < 16) :
    (steer keys my).direction.toNat < 16 := by
  have turned : (8 ^^^ my.direction).toNat < 16 := by
    rw [UInt8.toNat_xor]
    exact Nat.xor_lt_two_pow (n := 4) (by decide) directed
  unfold steer
  dsimp only
  split_ifs
  all_goals first | exact directed_and _ | exact turned | exact directed

theorem Each.keyboard (each : Each Directed game) (keys : UInt8) :
    Each Directed (keyboard keys game) := by
  have steered := each.setShip (i := game.myNum) (directed_steer keys _ (each game.myNum).1)
  unfold Drawing.keyboard
  dsimp only
  split_ifs
  · exact steered.fireMissile _
  · exact steered

theorem exists_advance {rounds : Nat} (enough : 32768 ≤ rounds) (each : Each Directed game) :
    ∃ next, advance rounds game = some next ∧ Each (Advanced NUM_SHIPS) next := by
  refine forLoop_invariant (fun count => Each (Advanced count)) (Nat.zero_le _) ?_ ?_
  · intro i game _ _ before
    obtain ⟨ship, moved, range, same⟩ := exists_advanceBody enough true (game.ship i)
    obtain ⟨missile, moved', range', same'⟩ := exists_advanceBody enough false (game.missile i)
    refine ⟨(game.setShip i ship).setMissile i missile, by rw [moved, moved']; rfl, ?_⟩
    have more : ∀ {j p}, j ≠ i → Advanced i j p → Advanced (i + 1) j p :=
      fun other advanced => ⟨fun less => advanced.1 (by omega), advanced.2⟩
    intro j
    by_cases here : j = i
    · subst here
      rw [show ((game.setShip j ship).setMissile j missile).ship j = ship from
          Function.update_self ..,
        show ((game.setShip j ship).setMissile j missile).missile j = missile from
          Function.update_self ..]
      exact ⟨⟨fun _ => range, show ship.direction.toNat < 16 from same ▸ (before j).1.2⟩,
        ⟨fun _ => range', show missile.direction.toNat < 16 from same' ▸ (before j).2.2⟩⟩
    · rw [show ((game.setShip i ship).setMissile i missile).ship j = game.ship j from
          Function.update_of_ne here ..,
        show ((game.setShip i ship).setMissile i missile).missile j = game.missile j from
          Function.update_of_ne here ..]
      exact ⟨more here (before j).1, more here (before j).2⟩
  · exact fun i => ⟨⟨fun less => absurd less (Nat.not_lt_zero i), (each i).1⟩,
      ⟨fun less => absurd less (Nat.not_lt_zero i), (each i).2⟩⟩

/-- A hit changes nothing that says where a body is. -/
theorem Each.detectHits {count : Nat} (each : Each (Advanced count) game) (who : Nat) :
    Each (Advanced count) (DetectHits game who).1 := by
  have kept : ∀ (indices : List Nat) (state : Game × Bool), Each (Advanced count) state.1 →
      Each (Advanced count) (indices.foldl (fun (state : Game × Bool) i =>
        if hits state.1 who i then
          let s := state.1.ship who
          let m := state.1.missile who
          (((state.1.setShip who { s with
              score := s.score + 3
              dings := Function.update s.dings i (s.dings i + 2) }).setMissile who
              { m with ttl := 0 }), true)
        else state) state).1 := by
    intro indices
    induction indices with
    | nil => exact fun state each => each
    | cons i indices inductionHypothesis =>
      intro state each
      rw [List.foldl_cons]
      refine inductionHypothesis _ ?_
      split_ifs
      · refine Each.setMissile (Each.setShip each ?_) ?_
        · exact ⟨fun less => ⟨((each who).1.1 less).x, ((each who).1.1 less).y,
            ((each who).1.1 less).r, ((each who).1.1 less).s⟩, (each who).1.2⟩
        · exact ⟨fun less => ⟨((each who).2.1 less).x, ((each who).2.1 less).y,
            ((each who).2.1 less).r, ((each who).2.1 less).s⟩, (each who).2.2⟩
      · exact each
  exact kept _ _ each

theorem Each.follow {count : Nat} (each : Each (Advanced count) game) :
    Each (Advanced count) (follow game) := by
  refine each.foldl fun game who each => ?_
  dsimp only
  split_ifs
  · exact each.detectHits who
  · exact each.detectHits who
  · exact each

theorem exists_toDraw {rounds : Nat} (enough : 32768 ≤ rounds) (keys : UInt8)
    (each : Each Directed game) :
    ∃ next, toDraw rounds keys game = some next ∧ Each (Advanced NUM_SHIPS) next := by
  obtain ⟨next, moved, advanced⟩ := exists_advance enough (each.keyboard keys)
  exact ⟨Drawing.follow next, by rw [toDraw, moved]; rfl, advanced.follow⟩

/-- A packet that is accepted has ships in directions of the table. -/
def Turn.Fair (turn : Turn) : Prop :=
  ∀ p ∈ turn.packet, p.accepted → p.ship.direction.toNat < 16 ∧ p.missile.direction.toNat < 16

theorem Each.afterDraw (each : Each Directed game) {packet : Option Payload}
    (fair : ∀ p ∈ packet, p.accepted →
      p.ship.direction.toNat < 16 ∧ p.missile.direction.toNat < 16) :
    Each Directed (afterDraw packet game) := by
  have checked : Each Directed (CheckIncomingPackets packet game) := by
    unfold CheckIncomingPackets
    split_ifs
    · exact each
    · cases packet with
      | none => exact each
      | some p =>
        rw [Option.elim_some, ProcessIncomingPacket]
        split_ifs with accepted
        · exact (each.setShip (fair p rfl accepted).1).setMissile (fair p rfl accepted).2
        · exact each
  have older : ∀ p : Body, (depreciated p).direction = p.direction := by
    intro p
    unfold depreciated
    split_ifs <;> rfl
  have depreciates : Each Directed (depreciate (CheckIncomingPackets packet game)) := by
    intro i
    unfold depreciate Directed
    dsimp only
    constructor
    · split_ifs
      · exact (checked i).1
      · exact (checked i).1
      · rw [older]
        exact (checked i).1
    · split_ifs
      · exact (checked i).2
      · rw [older]
        exact (checked i).2
  have veered : ∀ {game who change}, Each Directed game → Each Directed (veer who change game) :=
    fun each => each.setShip (directed_and _)
  unfold Drawing.afterDraw others
  dsimp only
  split_ifs
  · split
    · exact Each.fireMissile depreciates 0
    · exact Each.fireMissile depreciates 2
    · exact Each.fireMissile depreciates 3
    · exact veered (veered (veered depreciates))
    · exact veered (veered depreciates)
    · exact veered depreciates
    · exact depreciates
  · exact depreciates

end

/-! ### Where a ship is drawn -/

/-- The pixel of a body on the screen. -/
def Body.column (p : Body) : Nat := p.x.toNat / 256
def Body.line (p : Body) : Nat := p.y.toNat / 256

/-- A row of the ship begins in the last byte of the screen. The ship is at the right edge, or at
the left one, from which it sticks out to the end of the line above. -/
def AtCorner (p : Body) : Prop :=
  (126 ≤ p.column ∧ (p.line ≤ 1 ∨ 93 ≤ p.line)) ∨ (p.column ≤ 1 ∧ (p.line ≤ 2 ∨ 94 ≤ p.line))

instance (p : Body) : Decidable (AtCorner p) := inferInstanceAs (Decidable (_ ∨ _))

def OnScreen (addr : UInt16) : Prop := 0x0400 ≤ addr.toNat ∧ addr.toNat < 0x0400 + 3072

/-- The access is within the table, or on the screen. -/
def Access.InBounds : Access → Prop
  | .table index => index.toNat < Ships.length
  | .pxor addr _ => OnScreen addr

theorem toNat_shiftRight_eight (v : UInt16) : (v >>> 8).toNat = v.toNat / 256 := by
  rw [UInt16.toNat_shiftRight, Nat.shiftRight_eq_div_pow]
  rfl

/-- The byte of the line and the place in it, for each column of a ship. -/
theorem columns : ∀ column < 128,
    ((UInt16.ofNat column - 2).toInt16 >>> 2).toUInt16.toNat =
        ((column + 2) / 4 + 65535) % 65536 ∧
      ((UInt16.ofNat column - 2).toInt16 &&& 3).toUInt16.toNat ≤ 3 := by
  decide +kernel

section
variable {p : Body}

theorem columns_of_inRange (range : InRange p) :
    (((p.x >>> 8) - 2).toInt16 >>> 2).toUInt16.toNat = ((p.column + 2) / 4 + 65535) % 65536 ∧
      (((p.x >>> 8) - 2).toInt16 &&& 3).toUInt16.toNat ≤ 3 := by
  have small : p.column < 128 := by
    have x := range.x
    unfold Body.column
    omega
  have same : p.x >>> 8 = UInt16.ofNat p.column := by
    rw [Body.column, ← toNat_shiftRight_eight, UInt16.ofNat_toNat]
  rw [same]
  exact columns p.column small

/-- Where the first row begins, before it is wrapped. -/
theorem toNat_firstByte (range : InRange p) :
    (VDG_RAM + (((p.x >>> 8) - 2).toInt16 >>> 2).toUInt16 +
      (((p.y >>> 8) - 2).toInt16.toUInt16 <<< 5)).toNat =
        959 + (p.column + 2) / 4 + 32 * p.line := by
  have x := range.x
  have y := range.y
  have across := (columns_of_inRange range).1
  have down : ((p.y >>> 8) - 2).toNat = (p.line + 65534) % 65536 := by
    rw [UInt16.toNat_sub, toNat_shiftRight_eight]
    show (2 ^ 16 - 2 + p.y.toNat / 256) % 2 ^ 16 = _
    unfold Body.line
    omega
  have base : VDG_RAM.toNat = 1024 := rfl
  rw [UInt16.toNat_add, UInt16.toNat_add, UInt16.toUInt16_toInt16, UInt16.toNat_shiftLeft, across,
    down, base, show (5 : UInt16).toNat % 16 = 5 from rfl, Nat.shiftLeft_eq]
  unfold Body.column Body.line
  omega

theorem toNat_onScreen {v : UInt16} (small : v.toNat < 7168) : (onScreen v).toNat =
    if v.toNat < 1024 then v.toNat + 3072 else if v.toNat < 4096 then v.toNat
    else v.toNat - 3072 := by
  have limit : (VDG_RAM + 3 * 1024).toNat = 4096 := rfl
  have size : (3 * 1024 : UInt16).toNat = 3072 := rfl
  have up : (v + 3 * 1024).toNat = v.toNat + 3072 := by
    rw [UInt16.toNat_add, size]
    omega
  unfold onScreen
  by_cases below : v < VDG_RAM + 3 * 1024
  · have low := UInt16.lt_iff_toNat_lt.mp below
    rw [limit] at low
    simp only [if_pos below]
    by_cases lower : v.toNat < 1024
    · have inside : ¬VDG_RAM + 3 * 1024 ≤ v + 3 * 1024 := by
        rw [UInt16.le_iff_toNat_le, limit, up]
        omega
      rw [if_neg inside, if_pos lower, up]
    · have outside : VDG_RAM + 3 * 1024 ≤ v + 3 * 1024 := by
        rw [UInt16.le_iff_toNat_le, limit, up]
        omega
      rw [if_pos outside, if_neg lower, if_pos low, UInt16.add_sub_cancel]
  · have outside : VDG_RAM + 3 * 1024 ≤ v := UInt16.not_lt.mp below
    have far := UInt16.le_iff_toNat_le.mp outside
    rw [limit] at far
    have less : 3 * 1024 ≤ v := by
      rw [UInt16.le_iff_toNat_le, size]
      omega
    simp only [if_neg below]
    rw [if_pos outside, if_neg (by omega), if_neg (by omega), UInt16.toNat_sub_of_le _ _ less, size]

end

/-! ### What is drawn -/

theorem inBounds_rows {ship : Nat} {first : UInt16} {rows : List UInt16} {brush : Brush}
    (room : brush.index.toNat + 2 * rows.length ≤ 640) :
    (∀ access ∈ (rows.foldl (drawRow ship first) brush).accesses, access.InBounds) ↔
      (∀ access ∈ brush.accesses, access.InBounds) ∧
        ∀ row ∈ rows, OnScreen (onScreen (first + row)) ∧ OnScreen (onScreen (first + row) + 1) := by
  induction rows generalizing brush with
  | nil => simp
  | cons row rows inductionHypothesis =>
    rw [List.length_cons] at room
    have size : Ships.length = 640 := by decide +kernel
    have index : (brush.index + 1).toNat = brush.index.toNat + 1 := by
      rw [UInt16.toNat_add]
      show (brush.index.toNat + 1) % 2 ^ 16 = _
      omega
    have next : (brush.index + 2).toNat = brush.index.toNat + 2 := by
      rw [UInt16.toNat_add]
      show (brush.index.toNat + 2) % 2 ^ 16 = _
      omega
    have left : (Access.table brush.index).InBounds := by
      show brush.index.toNat < Ships.length
      omega
    have right : (Access.table (brush.index + 1)).InBounds := by
      show (brush.index + 1).toNat < Ships.length
      omega
    rw [List.foldl_cons, inductionHypothesis (by
      show (brush.index + 2).toNat + _ ≤ 640
      omega), drawRow, List.forall_mem_append, List.forall_mem_cons]
    simp only [List.forall_mem_cons, List.not_mem_nil, false_imp_iff, implies_true, and_true, left,
      right, true_and]
    exact and_assoc

/-- The rows of a ship are on the screen unless it is at a corner. -/
theorem rows_onScreen_iff {p : Body} (range : InRange p) {first : UInt16}
    (is : first.toNat = 959 + (p.column + 2) / 4 + 32 * p.line) :
    (∀ row ∈ ([0, 32, 64, 96, 128] : List UInt16),
      OnScreen (onScreen (first + row)) ∧ OnScreen (onScreen (first + row) + 1)) ↔
        ¬AtCorner p := by
  have x : p.column < 128 := by
    have x := range.x
    unfold Body.column
    omega
  have y : p.line < 96 := by
    have y := range.y
    unfold Body.line
    omega
  have row : ∀ (row : UInt16) (k : Nat), row.toNat = 32 * k → k < 5 →
      ((OnScreen (onScreen (first + row)) ∧ OnScreen (onScreen (first + row) + 1)) ↔
        (p.column + 2) / 4 + 32 * (p.line + k) ≠ 64 ∧
          (p.column + 2) / 4 + 32 * (p.line + k) ≠ 3136) := by
    intro row k offset few
    have place : (first + row).toNat = 959 + (p.column + 2) / 4 + 32 * (p.line + k) := by
      rw [UInt16.toNat_add, is, offset]
      omega
    have here := toNat_onScreen (show (first + row).toNat < 7168 by omega)
    have second : (onScreen (first + row) + 1).toNat =
        ((onScreen (first + row)).toNat + 1) % 2 ^ 16 := by
      rw [UInt16.toNat_add, show (1 : UInt16).toNat = 1 from rfl]
    rw [place] at here
    unfold OnScreen
    rw [second, here]
    split_ifs <;> omega
  simp only [List.forall_mem_cons]
  refine (and_congr (row 0 0 rfl (by decide)) (and_congr (row 32 1 rfl (by decide))
    (and_congr (row 64 2 rfl (by decide)) (and_congr (row 96 3 rfl (by decide))
      (and_congr_left' (row 128 4 rfl (by decide))))))).trans ?_
  have none : ∀ row ∈ ([] : List UInt16), OnScreen (onScreen (first + row)) ∧
      OnScreen (onScreen (first + row) + 1) := fun _ member => absurd member List.not_mem_nil
  rw [and_iff_left none]
  unfold AtCorner
  omega

theorem exists_drawShip {p : Body} (range : InRange p) (directed : p.direction.toNat < 16)
    (rounds ship : Nat) : ∃ accesses, DrawShip rounds p ship false = some accesses ∧
      ((∀ access ∈ accesses, access.InBounds) ↔ (p.ttl ≠ 0 → ¬AtCorner p)) := by
  by_cases expired : p.ttl = 0
  · exact ⟨[], if_pos expired, iff_of_true (fun _ member => absurd member List.not_mem_nil)
      fun live => absurd expired live⟩
  · have draws : DrawShip rounds p ship false =
        some ((([0, 32, 64, 96, 128] : List UInt16).foldl
          (drawRow ship (VDG_RAM + (((p.x >>> 8) - 2).toInt16 >>> 2).toUInt16 +
            (((p.y >>> 8) - 2).toInt16.toUInt16 <<< 5)))
          ⟨firstMask ship, (((p.x >>> 8) - 2).toInt16 &&& 3).toUInt16 * 10 +
            p.direction.toUInt16 * 40, []⟩).accesses) := by
      rw [DrawShip, if_neg expired]
      rfl
    refine ⟨_, draws, ?_⟩
    have phase := (columns_of_inRange range).2
    have index : ((((p.x >>> 8) - 2).toInt16 &&& 3).toUInt16 * 10 +
        p.direction.toUInt16 * 40).toNat ≤ 630 := by
      rw [UInt16.toNat_add, UInt16.toNat_mul, UInt16.toNat_mul, UInt8.toNat_toUInt16]
      refine (Nat.mod_le _ _).trans ((Nat.add_le_add (Nat.mod_le _ _) (Nat.mod_le _ _)).trans ?_)
      show _ * 10 + p.direction.toNat * 40 ≤ 630
      omega
    rw [inBounds_rows (Nat.add_le_add_right index 10),
      rows_onScreen_iff range (toNat_firstByte range)]
    constructor
    · exact fun drawn _ => drawn.2
    · exact fun clear => ⟨fun _ member => absurd member List.not_mem_nil, clear expired⟩

/-- A missile is drawn as one pixel, and is on the screen already. -/
theorem exists_drawMissile {p : Body} (range : InRange p) (rounds ship : Nat) :
    ∃ accesses, DrawShip rounds p ship true = some accesses ∧
      ∀ access ∈ accesses, access.InBounds := by
  have x := range.x
  have y := range.y
  have across := toNat_shiftRight_eight p.x
  have down := toNat_shiftRight_eight p.y
  have restored : ∀ v : UInt16, (v - 2).toInt16 + 2 = v.toInt16 := by
    intro v
    rw [UInt16.toInt16_sub]
    exact Int16.sub_add_cancel ..
  have small : ∀ v : UInt16, v.toNat < 32768 → v.toInt16.toInt = v.toNat := by
    intro v less
    rw [toInt_eq, UInt16.toUInt16_toInt16, if_pos less]
  by_cases expired : p.ttl = 0
  · exact ⟨[], if_pos expired, fun _ member => absurd member List.not_mem_nil⟩
  · have draws : DrawShip rounds p ship true =
        DrawSpot2 rounds (((p.x >>> 8) - 2).toInt16 + 2) (((p.y >>> 8) - 2).toInt16 + 2) 2 := by
      rw [DrawShip, if_neg expired]
      rfl
    rw [draws, restored, restored, DrawSpot2]
    have right : ¬(p.x >>> 8).toInt16 < 0 := by
      rw [neg_iff, UInt16.toUInt16_toInt16]
      omega
    have lower : ¬(p.y >>> 8).toInt16 < 0 := by
      rw [neg_iff, UInt16.toUInt16_toInt16]
      omega
    have left : ¬(128 : Int16) < (p.x >>> 8).toInt16 := by
      rw [Int16.lt_iff_toInt_lt, small _ (by omega)]
      show ¬(128 : Int) < _
      omega
    have upper : ¬(96 : Int16) < (p.y >>> 8).toInt16 := by
      rw [Int16.lt_iff_toInt_lt, small _ (by omega)]
      show ¬(96 : Int) < _
      omega
    have stays : ∀ {condition : Int16 → Bool} {body : Int16 → Option Int16},
        condition (p.x >>> 8).toInt16 = false →
        whileLoop condition body rounds (p.x >>> 8).toInt16 = some (p.x >>> 8).toInt16 :=
      whileLoop_of_not rounds
    rw [stays (decide_eq_false right), Option.bind_some, stays (decide_eq_false lower),
      Option.bind_some, stays (decide_eq_false left), Option.bind_some,
      stays (decide_eq_false upper), Option.map_some, UInt16.toUInt16_toInt16,
      UInt16.toUInt16_toInt16]
    refine ⟨_, rfl, ?_⟩
    intro access member
    rw [List.mem_singleton.mp member]
    have base : VDG_RAM.toNat = 1024 := rfl
    show OnScreen _
    unfold OnScreen
    rw [UInt16.toNat_add, UInt16.toNat_add, UInt8.toNat_toUInt16, UInt8.toNat_shiftRight,
      UInt16.toNat_toUInt8, UInt16.toNat_shiftLeft, UInt8.toNat_toUInt16, UInt16.toNat_toUInt8,
      across, down, base, show (2 : UInt8).toNat % 8 = 2 from rfl,
      show (5 : UInt16).toNat % 16 = 5 from rfl, Nat.shiftRight_eq_div_pow, Nat.shiftLeft_eq]
    omega

theorem exists_drawAll {game : Game} (advanced : Each (Advanced NUM_SHIPS) game) (rounds : Nat) :
    ∃ accesses, DrawAll rounds game = some accesses ∧
      ((∀ access ∈ accesses, access.InBounds) ↔
        ∀ i < NUM_SHIPS, (game.ship i).ttl ≠ 0 → ¬AtCorner (game.ship i)) := by
  have each : ∀ indices : List Nat, (∀ i ∈ indices, i < NUM_SHIPS) → ∃ drawn,
      (indices.mapM fun ship => (DrawShip rounds (game.ship ship) ship false).bind fun first =>
        (DrawShip rounds (game.missile ship) ship true).map fun second => first ++ second) =
          some drawn ∧
      ((∀ access ∈ drawn.flatten, access.InBounds) ↔
        ∀ i ∈ indices, (game.ship i).ttl ≠ 0 → ¬AtCorner (game.ship i)) := by
    intro indices
    induction indices with
    | nil => exact fun _ => ⟨[], rfl, by simp⟩
    | cons i indices inductionHypothesis =>
      intro small
      obtain ⟨drawn, later, within⟩ :=
        inductionHypothesis fun j member => small j (List.mem_cons_of_mem _ member)
      obtain ⟨range, directed⟩ := (advanced i).1
      obtain ⟨first, ship, clear⟩ :=
        exists_drawShip (range (small i List.mem_cons_self)) directed rounds i
      obtain ⟨second, missile, inside⟩ :=
        exists_drawMissile ((advanced i).2.1 (small i List.mem_cons_self)) rounds i
      refine ⟨(first ++ second) :: drawn, ?_, ?_⟩
      · rw [List.mapM_cons, ship, missile, later]
        rfl
      · rw [List.flatten_cons, List.forall_mem_append, List.forall_mem_append,
          List.forall_mem_cons, within, clear]
        exact and_congr_left' (and_iff_left inside)
  obtain ⟨drawn, reached, within⟩ := each (List.range NUM_SHIPS) fun i => List.mem_range.mp
  refine ⟨drawn.flatten, by rw [DrawAll, reached]; rfl, within.trans ?_⟩
  exact forall_congr' fun i => imp_congr_left List.mem_range

/-! ### Drawing twice -/

/-- What the accesses do to the byte at an address, whatever is there. -/
def changes (a : UInt16) : List Access → UInt8
  | [] => 0
  | .table _ :: accesses => changes a accesses
  | .pxor addr pattern :: accesses => (if a = addr then pattern else 0) ^^^ changes a accesses

theorem paint_apply (accesses : List Access) (memory : UInt16 → UInt8) (a : UInt16) :
    paint accesses memory a = memory a ^^^ changes a accesses := by
  induction accesses generalizing memory with
  | nil => exact UInt8.xor_zero.symm
  | cons access accesses inductionHypothesis =>
    cases access with
    | table index => exact inductionHypothesis memory
    | pxor addr pattern =>
      have first : paint (.pxor addr pattern :: accesses) memory =
          paint accesses (Function.update memory addr (memory addr ^^^ pattern)) := rfl
      rw [first, inductionHypothesis, changes, ← UInt8.xor_assoc, Function.update_apply]
      split_ifs with same
      · rw [same]
      · rw [UInt8.xor_zero]

theorem paint_paint (accesses : List Access) (memory : UInt16 → UInt8) :
    paint accesses (paint accesses memory) = memory := by
  funext a
  rw [paint_apply, paint_apply, UInt8.xor_assoc, UInt8.xor_self, UInt8.xor_zero]

/-! ### The runs of the game -/

/-- The bodies are on the torus and not too fast, `DrawAll` ends and stays within the table and the
screen, and a second drawing takes away what the first drew. -/
structure Sound (rounds : Nat) (game : Game) : Prop where
  inRange : ∀ i < NUM_SHIPS, InRange (game.ship i) ∧ InRange (game.missile i)
  drawing : ∃ accesses, DrawAll rounds game = some accesses ∧
    (∀ access ∈ accesses, access.InBounds) ∧
    ∀ memory, paint accesses (paint accesses memory) = memory

/-- No ship that is there is at a corner. -/
def Clear (game : Game) : Prop :=
  ∀ i < NUM_SHIPS, (game.ship i).ttl ≠ 0 → ¬AtCorner (game.ship i)

theorem sound_iff_clear {game : Game} (advanced : Each (Advanced NUM_SHIPS) game) (rounds : Nat) :
    Sound rounds game ↔ Clear game := by
  obtain ⟨accesses, draws, within⟩ := exists_drawAll advanced rounds
  constructor
  · rintro ⟨-, accesses', draws', inBounds, -⟩
    rw [draws, Option.some_inj] at draws'
    exact within.mp (draws' ▸ inBounds)
  · intro clear
    exact ⟨fun i small => ⟨(advanced i).1.1 small, (advanced i).2.1 small⟩, accesses, draws,
      within.mpr clear, paint_paint accesses⟩

theorem exists_drawn {rounds : Nat} (enough : 32768 ≤ rounds) {turns : List Turn}
    (fair : ∀ turn ∈ turns, turn.Fair) {game : Game} (each : Each Directed game) :
    ∃ games, drawn rounds turns game = some games ∧
      ∀ game ∈ games, Each (Advanced NUM_SHIPS) game := by
  induction turns generalizing game with
  | nil => exact ⟨[], rfl, fun _ member => absurd member List.not_mem_nil⟩
  | cons turn turns inductionHypothesis =>
    rw [List.forall_mem_cons] at fair
    obtain ⟨next, moved, advanced⟩ := exists_toDraw enough turn.keys each
    have directed : Each Directed next := fun i => ⟨(advanced i).1.2, (advanced i).2.2⟩
    obtain ⟨games, later, all⟩ := inductionHypothesis fair.2 (directed.afterDraw fair.1)
    refine ⟨next :: games, by rw [drawn, moved, Option.bind_some, later]; rfl, ?_⟩
    exact List.forall_mem_cons.mpr ⟨advanced, all⟩

/-- In every run of the game, with any keys and with any packets that are in order, the loops end,
and each drawing is sound exactly when no ship that is drawn is at a corner of the screen. -/
theorem drawing_sound_iff {rounds : Nat} (enough : 32768 ≤ rounds) (mode : UInt8)
    {turns : List Turn} (fair : ∀ turn ∈ turns, turn.Fair) :
    ∃ games, drawn rounds turns (start mode) = some games ∧
      ∀ game ∈ games, (Sound rounds game ↔ Clear game) := by
  obtain ⟨games, reached, advanced⟩ := exists_drawn enough fair (each_start mode)
  exact ⟨games, reached, fun game member => sound_iff_clear (advanced game member) rounds⟩

/-- Another player's ship, in the corner. -/
def cornerShip : Body := ⟨0x7F00, 0x5F00, 0, 0, 0, 0, 255, fun _ => 0⟩

/-- The packet with this ship comes in the first turn, and in the second the ship is drawn. -/
def cornerTurns : List Turn :=
  [⟨0, some ⟨0xAA, 1, cornerShip, { cornerShip with ttl := 0 }⟩⟩, ⟨0, none⟩]

theorem fair_cornerTurns : ∀ turn ∈ cornerTurns, turn.Fair := by
  rw [cornerTurns, List.forall_mem_cons, List.forall_mem_singleton]
  refine ⟨?_, fun _ none => absurd none (Option.not_mem_none _)⟩
  intro p packet _
  rw [← Option.mem_some.mp packet]
  decide

theorem drawing_sound_iff_corner :
    ∃ games, drawn 32768 cornerTurns (start 0x31) = some games ∧
      ∀ game ∈ games, (Sound 32768 game ↔ Clear game) :=
  drawing_sound_iff le_rfl 0x31 fair_cornerTurns

theorem not_drawing_sound_corner :
    ¬∀ (rounds : Nat), 32768 ≤ rounds → ∀ (mode : UInt8) (turns : List Turn),
      (∀ turn ∈ turns, turn.Fair) → ∃ games, drawn rounds turns (start mode) = some games ∧
        ∀ game ∈ games, Sound rounds game := by
  intro claimed
  obtain ⟨games, reached, sound⟩ := claimed 32768 le_rfl 0x31 cornerTurns fair_cornerTurns
  obtain ⟨games', reached', advanced⟩ :=
    exists_drawn le_rfl fair_cornerTurns (each_start 0x31)
  rw [reached, Option.some_inj] at reached'
  subst reached'
  have seen : (drawn 32768 cornerTurns (start 0x31)).map (List.map fun game =>
      decide ((game.ship 1).ttl ≠ 0 ∧ AtCorner (game.ship 1))) = some [false, true] := by
    decide +kernel
  rw [reached, Option.map_some, Option.some_inj] at seen
  obtain ⟨game, member, corner⟩ := List.mem_map.mp (seen ▸ List.mem_cons_of_mem false
    (List.mem_singleton.mpr rfl) : true ∈ games.map _)
  obtain ⟨live, corner⟩ := of_decide_eq_true corner
  exact (sound_iff_clear (advanced game member) 32768).mp (sound game member) 1 (by decide) live
    corner

end Frobio.Drawing
