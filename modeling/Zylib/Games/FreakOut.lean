import Mathlib.Data.List.ProdSigma
import Mathlib.Data.List.FinRange
import Mathlib.Algebra.Order.Group.Unbundled.Int

/-! The game of FreakOut.cpp: what each call of `Game_Main` does to the globals. What it draws is left out. -/

namespace Zylib.Games.FreakOut

/-! ### The constants -/

def SCREEN_WIDTH : ℤ := 640
def SCREEN_HEIGHT : ℤ := 480
def NUM_BLOCK_ROWS : ℕ := 6
def NUM_BLOCK_COLUMNS : ℕ := 8
def BLOCK_WIDTH : ℤ := 64
def BLOCK_HEIGHT : ℤ := 16
def BLOCK_ORIGIN_X : ℤ := 8
def BLOCK_ORIGIN_Y : ℤ := 8
def BLOCK_X_GAP : ℤ := 80
def BLOCK_Y_GAP : ℤ := 32
def PADDLE_START_X : ℤ := SCREEN_WIDTH / 2 - 16
def PADDLE_START_Y : ℤ := SCREEN_HEIGHT - 32
def PADDLE_WIDTH : ℤ := 32
def PADDLE_HEIGHT : ℤ := 8
def BALL_START_Y : ℤ := SCREEN_HEIGHT / 2
def BALL_SIZE : ℤ := 4

inductive GameState where
  | init
  | startLevel
  | run
  | shutdown
  | exit
deriving DecidableEq

/-- A row and a column of the grid. -/
abbrev Place := Fin NUM_BLOCK_ROWS × Fin NUM_BLOCK_COLUMNS

/-- The places in row major form. -/
def places : List Place := (List.finRange NUM_BLOCK_ROWS).product (List.finRange NUM_BLOCK_COLUMNS)

/-- What changes the score. -/
inductive Event where
  | hit (level : ℤ) (place : Place) (ball_dx : ℤ)
  | missed
deriving DecidableEq

/-- The globals. `log` is what has changed the score, in order. -/
structure Game where
  game_state : GameState := .init
  paddle_x : ℤ := 0
  paddle_y : ℤ := 0
  ball_x : ℤ := 0
  ball_y : ℤ := 0
  ball_dx : ℤ := 0
  ball_dy : ℤ := 0
  score : ℤ := 0
  level : ℤ := 1
  blocks_hit : ℕ := 0
  blocks : Place → UInt8 := fun _ => 0
  log : List Event := []

/-- The keys and the random numbers that a call of `Game_Main` reads. The arrow keys are read to move the paddle and again when the
    ball hits it. -/
structure Input where
  move_right : Bool := false
  move_left : Bool := false
  hit_right : Bool := false
  hit_left : Bool := false
  escape : Bool := false
  rand_x : ℕ := 0
  rand_dx : ℕ := 0
  rand_dy : ℕ := 0

namespace Game

def Init_Blocks (g : Game) : Game :=
  { g with blocks := fun p => UInt8.ofNat (p.1.val * 16 + p.2.val * 3 + 16) }

/-! ### `Process_Ball` -/

/-- The center of the ball is on the paddle, its edges included. -/
def onPaddle (g : Game) : Bool :=
  let x := g.ball_x + BALL_SIZE / 2
  let y := g.ball_y + BALL_SIZE / 2
  (g.paddle_x ≤ x ∧ x ≤ g.paddle_x + PADDLE_WIDTH) ∧ (g.paddle_y ≤ y ∧ y ≤ g.paddle_y + PADDLE_HEIGHT)

/-- There is a block at the place, and the center of the ball is inside it. -/
def inBlock (g : Game) (p : Place) : Bool :=
  let x1 := BLOCK_ORIGIN_X + BLOCK_X_GAP * p.2.val
  let y1 := BLOCK_ORIGIN_Y + BLOCK_Y_GAP * p.1.val
  let ball_cx := g.ball_x + BALL_SIZE / 2
  let ball_cy := g.ball_y + BALL_SIZE / 2
  g.blocks p ≠ 0 ∧ (x1 < ball_cx ∧ ball_cx < x1 + BLOCK_WIDTH) ∧ (y1 < ball_cy ∧ ball_cy < y1 + BLOCK_HEIGHT)

/-- The ball bounces off the paddle. -/
def hitPaddle (g : Game) (k : Input) : Game :=
  let g := { g with ball_dy := -g.ball_dy, ball_y := g.ball_y + -g.ball_dy }
  let g :=
    if k.hit_right then { g with ball_dx := g.ball_dx - k.rand_dx % 3 }
    else if k.hit_left then { g with ball_dx := g.ball_dx + k.rand_dx % 3 }
    else { g with ball_dx := g.ball_dx + (-1 + k.rand_dx % 3) }
  if g.blocks_hit ≥ NUM_BLOCK_ROWS * NUM_BLOCK_COLUMNS then
    { g with game_state := .startLevel, level := g.level + 1 }
  else g

/-- The ball bounces off the block at the place, which is removed. -/
def hitBlock (g : Game) (k : Input) (p : Place) : Game :=
  let ball_dx := g.ball_dx + (-1 + k.rand_dx % 3)
  { g with
    blocks := Function.update g.blocks p 0
    blocks_hit := g.blocks_hit + 1
    ball_dy := -g.ball_dy
    ball_dx := ball_dx
    score := g.score + 5 * (g.level + |ball_dx|)
    log := g.log ++ [.hit g.level p ball_dx] }

def Process_Ball (g : Game) (k : Input) : Game :=
  if (g.ball_y > SCREEN_HEIGHT / 2 ∧ g.ball_dy > 0) ∧ g.onPaddle then g.hitPaddle k
  else
    match places.find? g.inBlock with
    | some p => g.hitBlock k p
    | none => g

/-! ### `Game_Main` -/

/-- The paddle moves, and stays on the screen. -/
def movePaddle (g : Game) (k : Input) : Game :=
  if k.move_right then
    { g with
      paddle_x :=
        if g.paddle_x + 8 > SCREEN_WIDTH - PADDLE_WIDTH then SCREEN_WIDTH - PADDLE_WIDTH else g.paddle_x + 8 }
  else if k.move_left then { g with paddle_x := if g.paddle_x - 8 < 0 then 0 else g.paddle_x - 8 }
  else g

/-- The ball bounces off the sides of the screen. -/
def bounceX (g : Game) : Game :=
  if g.ball_x > SCREEN_WIDTH - BALL_SIZE ∨ g.ball_x < 0 then
    { g with ball_dx := -g.ball_dx, ball_x := g.ball_x + -g.ball_dx }
  else g

/-- The ball bounces off the top and the bottom of the screen; at the bottom the player has missed it. -/
def bounceY (g : Game) : Game :=
  if g.ball_y < 0 then { g with ball_dy := -g.ball_dy, ball_y := g.ball_y + -g.ball_dy }
  else if g.ball_y > SCREEN_HEIGHT - BALL_SIZE then
    { g with
      ball_dy := -g.ball_dy
      ball_y := g.ball_y + -g.ball_dy
      score := g.score - 100
      log := g.log ++ [.missed] }
  else g

def moveBall (g : Game) : Game :=
  bounceY (bounceX { g with ball_x := g.ball_x + g.ball_dx, ball_y := g.ball_y + g.ball_dy })

/-- The velocity of the ball does not get out of hand. -/
def limit (g : Game) : Game :=
  if g.ball_dx > 8 then { g with ball_dx := 8 }
  else if g.ball_dx < -8 then { g with ball_dx := -8 }
  else g

def Game_Main (g : Game) (k : Input) : Game :=
  match g.game_state with
  | .init =>
    { g with
      paddle_x := PADDLE_START_X
      paddle_y := PADDLE_START_Y
      ball_x := 8 + k.rand_x % (SCREEN_WIDTH - 16)
      ball_y := BALL_START_Y
      ball_dx := -4 + k.rand_dx % (8 + 1)
      ball_dy := 6 + k.rand_dy % 2
      game_state := .startLevel }
  | .startLevel => { g.Init_Blocks with blocks_hit := 0, game_state := .run }
  | .run =>
    let g := (g.movePaddle k).moveBall.limit.Process_Ball k
    if k.escape then { g with game_state := .shutdown } else g
  | .shutdown => { g with game_state := .exit }
  | .exit => g

/-- The game after the calls of `Game_Main`. -/
def play (inputs : List Input) : Game := inputs.foldl Game_Main {}

end Game

end Zylib.Games.FreakOut
