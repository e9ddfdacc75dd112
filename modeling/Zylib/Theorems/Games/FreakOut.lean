import Mathlib
import Zylib.Games.FreakOut

/-! What holds after any calls of `Game_Main`: the paddle and the ball stay on the screen, the score and the level are those of the
    blocks that were hit, and the player misses a ball only beside the paddle. -/

namespace Zylib.Games.FreakOut

variable {g : Game} {k : Input} {p : Place}

/-! ### The places -/

theorem mem_places (p : Place) : p ∈ places :=
  List.mem_product.2 ⟨List.mem_finRange p.1, List.mem_finRange p.2⟩

theorem nodup_places : places.Nodup := (List.nodup_finRange _).product (List.nodup_finRange _)

theorem length_places : places.length = NUM_BLOCK_ROWS * NUM_BLOCK_COLUMNS := rfl

/-- So many places without a repetition are all of them. -/
theorem perm_places {ps : List Place} (nodup : ps.Nodup) (h : NUM_BLOCK_ROWS * NUM_BLOCK_COLUMNS ≤ ps.length) :
    ps.Perm places :=
  (nodup.subperm fun p _ => mem_places p).perm_of_length_le (length_places ▸ h)

namespace Game

/-! ### What each part of a call does -/

/-- The paddle goes to a place on the screen, in steps of 8. -/
theorem movePaddle_cases (g : Game) (k : Input) :
    ∃ x, g.movePaddle k = { g with paddle_x := x } ∧
      (0 ≤ g.paddle_x → g.paddle_x ≤ SCREEN_WIDTH - PADDLE_WIDTH → 8 ∣ g.paddle_x →
        0 ≤ x ∧ x ≤ SCREEN_WIDTH - PADDLE_WIDTH ∧ 8 ∣ x) := by
  cases hr : k.move_right
  · cases hl : k.move_left
    · exact ⟨_, by simp [movePaddle, hr, hl], fun h0 h1 h2 => ⟨h0, h1, h2⟩⟩
    · refine ⟨if g.paddle_x - 8 < 0 then 0 else g.paddle_x - 8, by simp [movePaddle, hr, hl], fun _ _ _ => ?_⟩
      rw [SCREEN_WIDTH, PADDLE_WIDTH] at *
      split_ifs <;> omega
  · refine ⟨_, by simp only [movePaddle, hr]; rfl, fun _ _ _ => ?_⟩
    rw [SCREEN_WIDTH, PADDLE_WIDTH] at *
    split_ifs <;> omega

/-- A ball that has left the screen at a side goes back the way it has come. -/
theorem bounceX_cases (g : Game) :
    ∃ x v, g.bounceX = { g with ball_x := x, ball_dx := v } ∧ |v| = |g.ball_dx| ∧
      (0 ≤ g.ball_x - g.ball_dx → g.ball_x - g.ball_dx ≤ SCREEN_WIDTH - BALL_SIZE →
        0 ≤ x ∧ x ≤ SCREEN_WIDTH - BALL_SIZE) := by
  unfold bounceX
  split
  · exact ⟨_, _, rfl, abs_neg _, fun h0 h1 => ⟨h0, h1⟩⟩
  · rename_i h
    obtain ⟨right, left⟩ := not_or.1 h
    exact ⟨_, _, rfl, rfl, fun _ _ => ⟨not_lt.1 left, not_lt.1 right⟩⟩

/-- A ball that has left the screen at the top or the bottom goes back the way it has come; at the bottom it is missed. -/
theorem bounceY_cases (g : Game) :
    (g.ball_y < 0 ∧ g.bounceY = { g with ball_dy := -g.ball_dy, ball_y := g.ball_y - g.ball_dy }) ∨
    (SCREEN_HEIGHT - BALL_SIZE < g.ball_y ∧
      g.bounceY = { g with
        ball_dy := -g.ball_dy, ball_y := g.ball_y - g.ball_dy, score := g.score - 100, log := g.log ++ [.missed] }) ∨
    (0 ≤ g.ball_y ∧ g.ball_y ≤ SCREEN_HEIGHT - BALL_SIZE ∧ g.bounceY = g) := by
  unfold bounceY
  split
  · rename_i h
    exact .inl ⟨h, rfl⟩
  · rename_i h
    split
    · rename_i h'
      exact .inr (.inl ⟨h', rfl⟩)
    · rename_i h'
      exact .inr (.inr ⟨not_lt.1 h, not_lt.1 h', rfl⟩)

theorem limit_cases (g : Game) : ∃ v, g.limit = { g with ball_dx := v } ∧ |v| ≤ 8 := by
  unfold limit
  split
  · exact ⟨8, rfl, by decide⟩
  · split
    · exact ⟨-8, rfl, by decide⟩
    · exact ⟨_, rfl, abs_le.2 ⟨by omega, by omega⟩⟩

/-- The ball bounces off the paddle when it is on it on its way down, and the level is over when no block is left. -/
theorem hitPaddle_cases (g : Game) (k : Input) :
    ∃ v, |v - g.ball_dx| ≤ 2 ∧
      ((g.blocks_hit < NUM_BLOCK_ROWS * NUM_BLOCK_COLUMNS ∧
        g.hitPaddle k = { g with ball_dy := -g.ball_dy, ball_y := g.ball_y - g.ball_dy, ball_dx := v }) ∨
      (NUM_BLOCK_ROWS * NUM_BLOCK_COLUMNS ≤ g.blocks_hit ∧
        g.hitPaddle k = { g with
          ball_dy := -g.ball_dy, ball_y := g.ball_y - g.ball_dy, ball_dx := v
          game_state := .startLevel, level := g.level + 1 })) := by
  have english : ∃ v, |v - g.ball_dx| ≤ 2 ∧ v =
      if k.hit_right then g.ball_dx - k.rand_dx % 3
      else if k.hit_left then g.ball_dx + k.rand_dx % 3
      else g.ball_dx + (-1 + k.rand_dx % 3) := by
    refine ⟨_, ?_, rfl⟩
    rw [abs_le]
    split
    · omega
    · split <;> omega
  obtain ⟨v, hv, rfl⟩ := english
  refine ⟨_, hv, ?_⟩
  by_cases h : NUM_BLOCK_ROWS * NUM_BLOCK_COLUMNS ≤ g.blocks_hit
  · refine .inr ⟨h, ?_⟩
    cases hr : k.hit_right <;> cases hl : k.hit_left <;> simp [hitPaddle, hr, hl, h, sub_eq_add_neg]
  · refine .inl ⟨not_le.1 h, ?_⟩
    cases hr : k.hit_right <;> cases hl : k.hit_left <;> simp [hitPaddle, hr, hl, h, sub_eq_add_neg]

theorem onPaddle_iff (g : Game) :
    g.onPaddle = true ↔
      (g.paddle_x ≤ g.ball_x + 2 ∧ g.ball_x + 2 ≤ g.paddle_x + 32) ∧
        (g.paddle_y ≤ g.ball_y + 2 ∧ g.ball_y + 2 ≤ g.paddle_y + 8) := by
  unfold onPaddle
  exact decide_eq_true_iff

/-- The ball hits a block only in the upper part of the screen. -/
theorem inBlock_spec (h : g.inBlock p = true) : g.blocks p ≠ 0 ∧ g.ball_y < SCREEN_HEIGHT / 2 := by
  obtain ⟨there, -, -, below⟩ := of_decide_eq_true h
  have row : (p.1.val : ℤ) < 6 := by exact_mod_cast p.1.isLt
  refine ⟨there, ?_⟩
  simp only [BLOCK_ORIGIN_Y, BLOCK_Y_GAP, BLOCK_HEIGHT, BALL_SIZE, SCREEN_HEIGHT] at below ⊢
  omega

theorem Process_Ball_cases (g : Game) (k : Input) :
    (SCREEN_HEIGHT / 2 < g.ball_y ∧ 0 < g.ball_dy ∧ g.onPaddle = true ∧ g.Process_Ball k = g.hitPaddle k) ∨
    (∃ p, g.inBlock p = true ∧ g.Process_Ball k = g.hitBlock k p) ∨
    (¬ (SCREEN_HEIGHT / 2 < g.ball_y ∧ 0 < g.ball_dy ∧ g.onPaddle = true) ∧ g.Process_Ball k = g) := by
  unfold Process_Ball
  split
  · rename_i h
    exact .inl ⟨h.1.1, h.1.2, h.2, rfl⟩
  · rename_i h
    split
    · rename_i p hp
      exact .inr (.inl ⟨p, List.find?_some hp, rfl⟩)
    · exact .inr (.inr ⟨fun ⟨h1, h2, h3⟩ => h ⟨⟨h1, h2⟩, h3⟩, rfl⟩)

/-- What a call does before `Process_Ball` is to move the paddle and the ball; only a ball that is missed changes the score. -/
theorem moves_cases (g : Game) (k : Input) :
    ∃ px bx bdx, |bdx| ≤ 8 ∧
      ((SCREEN_HEIGHT - BALL_SIZE < g.ball_y + g.ball_dy ∧
        (g.movePaddle k).moveBall.limit = { g with
          paddle_x := px, ball_x := bx, ball_y := g.ball_y, ball_dx := bdx, ball_dy := -g.ball_dy
          score := g.score - 100, log := g.log ++ [.missed] }) ∨
      ∃ y dy,
        ((g.ball_y + g.ball_dy < 0 ∧ y = g.ball_y ∧ dy = -g.ball_dy) ∨ (y = g.ball_y + g.ball_dy ∧ dy = g.ball_dy)) ∧
        (g.movePaddle k).moveBall.limit =
          { g with paddle_x := px, ball_x := bx, ball_y := y, ball_dx := bdx, ball_dy := dy }) := by
  obtain ⟨px, e, -⟩ := movePaddle_cases g k
  rw [e]
  unfold Game.moveBall
  obtain ⟨x, v, e, -⟩ := bounceX_cases
    { g with paddle_x := px, ball_x := g.ball_x + g.ball_dx, ball_y := g.ball_y + g.ball_dy }
  rw [e]
  rcases bounceY_cases { g with paddle_x := px, ball_x := x, ball_y := g.ball_y + g.ball_dy, ball_dx := v }
    with ⟨top, e⟩ | ⟨bottom, e⟩ | ⟨-, -, e⟩
  · rw [e]
    obtain ⟨w, e, hw⟩ := limit_cases { g with
      paddle_x := px, ball_x := x, ball_y := g.ball_y + g.ball_dy - g.ball_dy, ball_dx := v, ball_dy := -g.ball_dy }
    exact ⟨px, x, w, hw, .inr ⟨_, _, .inl ⟨top, add_sub_cancel_right _ _, rfl⟩, e⟩⟩
  · rw [e]
    obtain ⟨w, e, hw⟩ := limit_cases { g with
      paddle_x := px, ball_x := x, ball_y := g.ball_y + g.ball_dy - g.ball_dy, ball_dx := v, ball_dy := -g.ball_dy
      score := g.score - 100, log := g.log ++ [.missed] }
    refine ⟨px, x, w, hw, .inl ⟨bottom, e.trans ?_⟩⟩
    rw [add_sub_cancel_right]
  · rw [e]
    obtain ⟨w, e, hw⟩ := limit_cases { g with paddle_x := px, ball_x := x, ball_y := g.ball_y + g.ball_dy, ball_dx := v }
    exact ⟨px, x, w, hw, .inr ⟨_, _, .inr ⟨rfl, rfl⟩, e⟩⟩

theorem play_append (inputs : List Input) (k : Input) : play (inputs ++ [k]) = (play inputs).Game_Main k := by
  simp [play]

/-! ### The screen -/

/-- Where the paddle and the ball are, and how fast the ball is. -/
structure OnScreen (g : Game) : Prop where
  paddle_x : 0 ≤ g.paddle_x ∧ g.paddle_x ≤ SCREEN_WIDTH - PADDLE_WIDTH ∧ 8 ∣ g.paddle_x
  paddle_y : g.paddle_y = PADDLE_START_Y
  ball_x : 0 ≤ g.ball_x ∧ g.ball_x ≤ SCREEN_WIDTH - BALL_SIZE
  ball_y : 0 ≤ g.ball_y ∧ g.ball_y ≤ SCREEN_HEIGHT - BALL_SIZE
  ball_dx : |g.ball_dx| ≤ 10
  ball_dy : |g.ball_dy| = 6 ∨ |g.ball_dy| = 7

/-- The ball never goes faster or slower up or down than before. -/
theorem OnScreen.movePaddle (h : OnScreen g) (k : Input) :
    OnScreen (g.movePaddle k) ∧ |(g.movePaddle k).ball_dy| = |g.ball_dy| := by
  obtain ⟨x, e, hx⟩ := movePaddle_cases g k
  obtain ⟨h0, h1, h2⟩ := h.paddle_x
  rw [e]
  exact ⟨⟨hx h0 h1 h2, h.paddle_y, h.ball_x, h.ball_y, h.ball_dx, h.ball_dy⟩, rfl⟩

theorem OnScreen.moveBall (h : OnScreen g) : OnScreen g.moveBall ∧ |g.moveBall.ball_dy| = |g.ball_dy| := by
  unfold Game.moveBall
  obtain ⟨x, v, e, hv, hx⟩ := bounceX_cases { g with ball_x := g.ball_x + g.ball_dx, ball_y := g.ball_y + g.ball_dy }
  rw [e]
  have there : 0 ≤ x ∧ x ≤ SCREEN_WIDTH - BALL_SIZE := by
    simp only [add_sub_cancel_right] at hx
    exact hx h.ball_x.1 h.ball_x.2
  have speed : |v| ≤ 10 := hv.trans_le h.ball_dx
  -- A ball that bounces is again where it was before the call.
  have back : g.ball_y + g.ball_dy - g.ball_dy = g.ball_y := add_sub_cancel_right _ _
  rcases bounceY_cases { g with ball_x := x, ball_y := g.ball_y + g.ball_dy, ball_dx := v }
    with ⟨-, e⟩ | ⟨-, e⟩ | ⟨top, bottom, e⟩
  · rw [e]
    exact ⟨⟨h.paddle_x, h.paddle_y, there, back.symm ▸ h.ball_y, speed, (abs_neg g.ball_dy).symm ▸ h.ball_dy⟩, abs_neg _⟩
  · rw [e]
    exact ⟨⟨h.paddle_x, h.paddle_y, there, back.symm ▸ h.ball_y, speed, (abs_neg g.ball_dy).symm ▸ h.ball_dy⟩, abs_neg _⟩
  · rw [e]
    exact ⟨⟨h.paddle_x, h.paddle_y, there, ⟨top, bottom⟩, speed, h.ball_dy⟩, rfl⟩

theorem OnScreen.limit (h : OnScreen g) : OnScreen g.limit ∧ |g.limit.ball_dy| = |g.ball_dy| := by
  obtain ⟨v, e, hv⟩ := limit_cases g
  rw [e]
  exact ⟨⟨h.paddle_x, h.paddle_y, h.ball_x, h.ball_y, hv.trans (by decide), h.ball_dy⟩, rfl⟩

/-- A ball that comes down on the paddle is pushed out of it upwards, and stays on the screen. -/
theorem OnScreen.hitPaddle (h : OnScreen g) (slow : |g.ball_dx| ≤ 8) (y : SCREEN_HEIGHT / 2 < g.ball_y)
    (down : 0 < g.ball_dy) (k : Input) : OnScreen (g.hitPaddle k) ∧ |(g.hitPaddle k).ball_dy| = |g.ball_dy| := by
  obtain ⟨v, hv, hits⟩ := hitPaddle_cases g k
  have speed : |v| ≤ 10 := by
    have sum := abs_add_le (v - g.ball_dx) g.ball_dx
    rw [sub_add_cancel] at sum
    omega
  have up : 0 ≤ g.ball_y - g.ball_dy ∧ g.ball_y - g.ball_dy ≤ SCREEN_HEIGHT - BALL_SIZE := by
    have dy := h.ball_dy
    have bottom := h.ball_y.2
    rw [abs_of_pos down] at dy
    rw [SCREEN_HEIGHT] at *
    omega
  rcases hits with ⟨-, e⟩ | ⟨-, e⟩
  · rw [e]
    exact ⟨⟨h.paddle_x, h.paddle_y, h.ball_x, up, speed, (abs_neg g.ball_dy).symm ▸ h.ball_dy⟩, abs_neg _⟩
  · rw [e]
    exact ⟨⟨h.paddle_x, h.paddle_y, h.ball_x, up, speed, (abs_neg g.ball_dy).symm ▸ h.ball_dy⟩, abs_neg _⟩

/-- The random number changes the ball's speed to the side by at most one. -/
theorem abs_add_rand (v : ℤ) (r : ℕ) : |v + (-1 + r % 3)| ≤ |v| + 1 :=
  (abs_add_le _ _).trans (Int.add_le_add_left (abs_le.2 ⟨by omega, by omega⟩) _)

theorem OnScreen.hitBlock (h : OnScreen g) (slow : |g.ball_dx| ≤ 8) (k : Input) (p : Place) :
    OnScreen (g.hitBlock k p) ∧ |(g.hitBlock k p).ball_dy| = |g.ball_dy| :=
  ⟨⟨h.paddle_x, h.paddle_y, h.ball_x, h.ball_y, (abs_add_rand _ _).trans (by omega),
    (abs_neg g.ball_dy).symm ▸ h.ball_dy⟩, abs_neg _⟩

theorem OnScreen.Process_Ball (h : OnScreen g) (slow : |g.ball_dx| ≤ 8) (k : Input) :
    OnScreen (g.Process_Ball k) ∧ |(g.Process_Ball k).ball_dy| = |g.ball_dy| := by
  rcases Process_Ball_cases g k with ⟨y, down, -, e⟩ | ⟨p, -, e⟩ | ⟨-, e⟩
  · rw [e]
    exact h.hitPaddle slow y down k
  · rw [e]
    exact h.hitBlock slow k p
  · rw [e]
    exact ⟨h, rfl⟩

theorem OnScreen.Game_Main (h : OnScreen g) (started : g.game_state ≠ .init) (k : Input) :
    OnScreen (g.Game_Main k) ∧ |(g.Game_Main k).ball_dy| = |g.ball_dy| := by
  unfold Game.Game_Main
  split
  · rename_i e
    exact absurd e started
  · exact ⟨⟨h.paddle_x, h.paddle_y, h.ball_x, h.ball_y, h.ball_dx, h.ball_dy⟩, rfl⟩
  · obtain ⟨h, e₁⟩ := h.movePaddle k
    obtain ⟨h, e₂⟩ := h.moveBall
    have slow : |(g.movePaddle k).moveBall.limit.ball_dx| ≤ 8 := by
      obtain ⟨v, e, hv⟩ := limit_cases (g.movePaddle k).moveBall
      rwa [e]
    obtain ⟨h, e₃⟩ := h.limit
    obtain ⟨h, e₄⟩ := h.Process_Ball slow k
    have dy := e₄.trans (e₃.trans (e₂.trans e₁))
    split
    · exact ⟨⟨h.paddle_x, h.paddle_y, h.ball_x, h.ball_y, h.ball_dx, h.ball_dy⟩, dy⟩
    · exact ⟨h, dy⟩
  · exact ⟨⟨h.paddle_x, h.paddle_y, h.ball_x, h.ball_y, h.ball_dx, h.ball_dy⟩, rfl⟩
  · exact ⟨h, rfl⟩

/-- The first call of `Game_Main` puts the paddle and the ball on the screen. -/
theorem onScreen_first (k : Input) : OnScreen (play [k]) where
  paddle_x := (by decide : 0 ≤ PADDLE_START_X ∧ PADDLE_START_X ≤ SCREEN_WIDTH - PADDLE_WIDTH ∧ 8 ∣ PADDLE_START_X)
  paddle_y := rfl
  ball_x := by
    change 0 ≤ 8 + (k.rand_x : ℤ) % (640 - 16) ∧ 8 + (k.rand_x : ℤ) % (640 - 16) ≤ 640 - 4
    omega
  ball_y := (by decide : 0 ≤ BALL_START_Y ∧ BALL_START_Y ≤ SCREEN_HEIGHT - BALL_SIZE)
  ball_dx := by
    change |(-4 : ℤ) + k.rand_dx % (8 + 1)| ≤ 10
    exact abs_le.2 ⟨by omega, by omega⟩
  ball_dy := by
    change |(6 : ℤ) + k.rand_dy % 2| = 6 ∨ |(6 : ℤ) + k.rand_dy % 2| = 7
    rw [abs_of_nonneg (by omega)]
    omega

/-- The game does not begin again. -/
theorem started (h : g.game_state ≠ .init) (k : Input) : (g.Game_Main k).game_state ≠ .init := by
  have moves : (g.movePaddle k).moveBall.limit.game_state = g.game_state := by
    obtain ⟨_, _, _, -, ⟨-, e⟩ | ⟨_, _, -, e⟩⟩ := moves_cases g k <;> rw [e]
  unfold Game.Game_Main
  split
  · rename_i e
    exact absurd e h
  · simp
  · have run : ((g.movePaddle k).moveBall.limit.Process_Ball k).game_state ≠ .init := by
      rcases Process_Ball_cases (g.movePaddle k).moveBall.limit k with ⟨-, -, -, e⟩ | ⟨p, -, e⟩ | ⟨-, e⟩
      · rw [e]
        obtain ⟨v, -, ⟨-, e⟩ | ⟨-, e⟩⟩ := hitPaddle_cases (g.movePaddle k).moveBall.limit k
        · rw [e]
          exact moves ▸ h
        · rw [e]
          simp
      · rw [e]
        exact moves ▸ h
      · rw [e]
        exact moves ▸ h
    split
    · simp
    · exact run
  · simp
  · exact h

/-- The state after the first call. -/
theorem after_first (k : Input) (inputs : List Input) :
    OnScreen (play (k :: inputs)) ∧ (play (k :: inputs)).game_state ≠ .init := by
  induction inputs using List.reverseRecOn with
  | nil => exact ⟨onScreen_first k, by simp [play, Game.Game_Main]⟩
  | append_singleton inputs k' ih =>
    rw [← List.cons_append, play_append]
    exact ⟨(ih.1.Game_Main ih.2 k').1, started ih.2 k'⟩

/-- From the first call on, the paddle and the ball are on the screen, the paddle is at a multiple of its step, and the ball goes up
    and down as fast as at the beginning. -/
theorem onScreen (k : Input) (inputs more : List Input) :
    OnScreen (play (k :: inputs)) ∧ |(play (k :: inputs ++ more)).ball_dy| = |(play (k :: inputs)).ball_dy| := by
  refine ⟨(after_first k inputs).1, ?_⟩
  induction more using List.reverseRecOn with
  | nil => rw [List.append_nil]
  | append_singleton more k' ih =>
    rw [← List.append_assoc, play_append]
    obtain ⟨h, hs⟩ := after_first k (inputs ++ more)
    exact (h.Game_Main hs k').2.trans ih

/-! ### The levels -/

end Game

/-- What an event adds to the score. -/
def Event.points : Event → ℤ
  | .hit level _ ball_dx => 5 * (level + |ball_dx|)
  | .missed => -100

/-- The block that was hit at the level, if that is the event. -/
def Event.placeAt (n : ℤ) : Event → Option Place
  | .hit level p _ => if level = n then some p else none
  | .missed => none

namespace Game

/-- The blocks that were hit at the level, in order. -/
def hitsAt (g : Game) (n : ℤ) : List Place := g.log.filterMap (Event.placeAt n)

/-- The score is the sum of what was hit and missed, each of the levels before had each of its blocks hit once, and at the current
    level the blocks that are missing are those that were hit, each once. -/
structure Levels (g : Game) : Prop where
  score : g.score = (g.log.map Event.points).sum
  level : 1 ≤ g.level
  slow : ∀ n p v, .hit n p v ∈ g.log → |v| ≤ 9
  completed : ∀ n, 1 ≤ n → n < g.level → (g.hitsAt n).Perm places
  others : ∀ n, n < 1 ∨ g.level < n → g.hitsAt n = []
  nodup : (g.hitsAt g.level).Nodup
  fresh : g.game_state = .init ∨ g.game_state = .startLevel → g.hitsAt g.level = []
  removed : g.game_state = .run → ∀ p, g.blocks p = 0 ↔ p ∈ g.hitsAt g.level
  counted : g.game_state = .run → g.blocks_hit = (g.hitsAt g.level).length

/-- Where the paddle and the ball are does not matter. -/
theorem Levels.place (h : Levels g) (px bx y bdx dy : ℤ) :
    Levels { g with paddle_x := px, ball_x := bx, ball_y := y, ball_dx := bdx, ball_dy := dy } :=
  ⟨h.score, h.level, h.slow, h.completed, h.others, h.nodup, h.fresh, h.removed, h.counted⟩

theorem Levels.missed (h : Levels g) : Levels { g with score := g.score - 100, log := g.log ++ [.missed] } := by
  have same (n : ℤ) : hitsAt { g with score := g.score - 100, log := g.log ++ [.missed] } n = g.hitsAt n := by
    simp [hitsAt, Event.placeAt]
  refine ⟨?_, h.level, ?_, ?_, ?_, ?_, ?_, ?_, ?_⟩
  · simp [h.score, Event.points, sub_eq_add_neg]
  · intro n p v hv
    simp only [List.mem_append, List.mem_singleton, reduceCtorEq, or_false] at hv
    exact h.slow n p v hv
  · intro n h1 hn
    rw [same]
    exact h.completed n h1 hn
  · intro n hn
    rw [same]
    exact h.others n hn
  · rw [same]
    exact h.nodup
  · intro hs
    rw [same]
    exact h.fresh hs
  · intro hs p
    rw [same]
    exact h.removed hs p
  · intro hs
    rw [same]
    exact h.counted hs

/-- A hit counts for its own level only. -/
theorem hitsAt_hitBlock (g : Game) (k : Input) (p : Place) (n : ℤ) :
    (g.hitBlock k p).hitsAt n = if g.level = n then g.hitsAt n ++ [p] else g.hitsAt n := by
  split
  · rename_i h
    simp [hitBlock, hitsAt, Event.placeAt, h]
  · rename_i h
    simp [hitBlock, hitsAt, Event.placeAt, h]

theorem Levels.hitBlock (h : Levels g) (running : g.game_state = .run) (slow : |g.ball_dx| ≤ 8) (there : g.blocks p ≠ 0)
    (k : Input) : Levels (g.hitBlock k p) := by
  have current : (g.hitBlock k p).hitsAt g.level = g.hitsAt g.level ++ [p] := by
    rw [hitsAt_hitBlock, if_pos rfl]
  have other {n : ℤ} (hn : g.level ≠ n) : (g.hitBlock k p).hitsAt n = g.hitsAt n := by
    rw [hitsAt_hitBlock, if_neg hn]
  have new : p ∉ g.hitsAt g.level := fun hp => there ((h.removed running p).2 hp)
  refine ⟨?_, h.level, ?_, ?_, ?_, ?_, ?_, ?_, ?_⟩
  · simp [Game.hitBlock, h.score, Event.points]
  · intro n q v hv
    rcases List.mem_append.1 hv with hv | hv
    · exact h.slow n q v hv
    · cases List.mem_singleton.1 hv
      exact (abs_add_rand _ _).trans (by omega)
  · intro n h1 hn
    rw [other hn.ne']
    exact h.completed n h1 hn
  · intro n hn
    have hn' : n < 1 ∨ g.level < n := hn
    have level := h.level
    rw [other (by omega)]
    exact h.others n hn
  · exact current.symm ▸ List.nodup_append.2 ⟨h.nodup, List.nodup_singleton p, by
      rintro _ hq _ hp rfl
      exact new (List.mem_singleton.1 hp ▸ hq)⟩
  · intro hs
    rcases hs with hs | hs
    · cases running.symm.trans hs
    · cases running.symm.trans hs
  · intro _ q
    have there' := h.removed running q
    change Function.update g.blocks p 0 q = 0 ↔ q ∈ (g.hitBlock k p).hitsAt g.level
    rw [current, List.mem_append, List.mem_singleton, ← there']
    by_cases hq : q = p
    · simp [hq]
    · simp [hq]
  · intro _
    change g.blocks_hit + 1 = ((g.hitBlock k p).hitsAt g.level).length
    rw [current, List.length_append, h.counted running, List.length_singleton]

/-- The level is over only when each of its blocks has been hit. -/
theorem Levels.hitPaddle (h : Levels g) (running : g.game_state = .run) (k : Input) : Levels (g.hitPaddle k) := by
  obtain ⟨v, -, ⟨-, e⟩ | ⟨all, e⟩⟩ := hitPaddle_cases g k
  · rw [e]
    exact h.place g.paddle_x g.ball_x _ v _
  · rw [e]
    have done : (g.hitsAt g.level).Perm places := perm_places h.nodup (h.counted running ▸ all)
    have next : g.hitsAt (g.level + 1) = [] := h.others _ (.inr (by omega))
    refine ⟨h.score, ?_, h.slow, ?_, ?_, next ▸ List.nodup_nil, fun _ => next, ?_, ?_⟩
    · exact h.level.trans (by simp)
    · intro n h1 hn
      rcases (Int.lt_add_one_iff.1 hn).lt_or_eq with hn | rfl
      · exact h.completed n h1 hn
      · exact done
    · intro n hn
      have hn' : n < 1 ∨ g.level + 1 < n := hn
      exact h.others n (by omega)
    · intro hs
      cases hs
    · intro hs
      cases hs

theorem Levels.Process_Ball (h : Levels g) (running : g.game_state = .run) (slow : |g.ball_dx| ≤ 8) (k : Input) :
    Levels (g.Process_Ball k) := by
  rcases Process_Ball_cases g k with ⟨-, -, -, e⟩ | ⟨p, hp, e⟩ | ⟨-, e⟩
  · rw [e]
    exact h.hitPaddle running k
  · rw [e]
    exact h.hitBlock running slow (inBlock_spec hp).1 k
  · rw [e]
    exact h

/-- A new field has no place without a block. -/
theorem Init_Blocks_ne (g : Game) (p : Place) : g.Init_Blocks.blocks p ≠ 0 :=
  (by decide : ∀ p : Place, UInt8.ofNat (p.1.val * 16 + p.2.val * 3 + 16) ≠ 0) p

theorem Levels.Game_Main (h : Levels g) (k : Input) : Levels (g.Game_Main k) := by
  unfold Game.Game_Main
  split
  · rename_i e
    exact ⟨h.score, h.level, h.slow, h.completed, h.others, h.nodup, fun _ => h.fresh (.inl e), (by cases ·), (by cases ·)⟩
  · rename_i e
    have none := h.fresh (.inr e)
    refine ⟨h.score, h.level, h.slow, h.completed, h.others, h.nodup, fun hs => ?_, fun _ p => ?_, fun _ => ?_⟩
    · rcases hs with hs | hs <;> cases hs
    · exact ⟨fun hp => absurd hp (Init_Blocks_ne g p), fun hp => by cases none ▸ hp⟩
    · exact (congrArg List.length none).symm
  · rename_i e
    have after : Levels ((g.movePaddle k).moveBall.limit.Process_Ball k) := by
      obtain ⟨px, bx, bdx, slow, ⟨-, e'⟩ | ⟨y, dy, -, e'⟩⟩ := moves_cases g k
      · rw [e']
        exact (h.missed.place px bx g.ball_y bdx (-g.ball_dy)).Process_Ball e slow k
      · rw [e']
        exact (h.place px bx y bdx dy).Process_Ball e slow k
    split
    · refine ⟨after.score, after.level, after.slow, after.completed, after.others, after.nodup, fun hs => ?_, ?_, ?_⟩
      · rcases hs with hs | hs <;> cases hs
      · intro hs
        cases hs
      · intro hs
        cases hs
    · exact after
  · refine ⟨h.score, h.level, h.slow, h.completed, h.others, h.nodup, fun hs => ?_, (by cases ·), (by cases ·)⟩
    rcases hs with hs | hs <;> cases hs
  · exact h

/-- After any calls of `Game_Main`. -/
theorem levels (inputs : List Input) : Levels (play inputs) := by
  induction inputs using List.reverseRecOn with
  | nil =>
    refine ⟨rfl, le_rfl, ?_, ?_, fun _ _ => rfl, List.nodup_nil, fun _ => rfl, (by cases ·), (by cases ·)⟩
    · intro n p v hv
      cases hv
    · intro n h1 hn
      exact absurd hn (not_lt.2 h1)
  | append_singleton inputs k ih =>
    rw [play_append]
    exact ih.Game_Main k

/-! ### The balls that are missed -/

/-- The ball comes down in the paddle's rows, to the left or to the right of it. -/
def Beside (g : Game) : Prop :=
  0 < g.ball_dy ∧ (g.paddle_y ≤ g.ball_y + BALL_SIZE / 2 ∧ g.ball_y + BALL_SIZE / 2 ≤ g.paddle_y + PADDLE_HEIGHT) ∧
    ¬ (g.paddle_x ≤ g.ball_x + BALL_SIZE / 2 ∧ g.ball_x + BALL_SIZE / 2 ≤ g.paddle_x + PADDLE_WIDTH)

/-- The ball comes down and is no longer above the paddle. -/
def Low (g : Game) : Prop := 0 < g.ball_dy ∧ PADDLE_START_Y ≤ g.ball_y + BALL_SIZE / 2

theorem Low.of_eq {g' : Game} (h : Low g') (y : g'.ball_y = g.ball_y) (dy : g'.ball_dy = g.ball_dy) : Low g :=
  ⟨dy ▸ h.1, y ▸ h.2⟩

/-- A ball that is low after `Process_Ball` was not hit in it. -/
theorem Process_Ball_low (h : Low (g.Process_Ball k)) : ¬ g.onPaddle = true ∧ g.Process_Ball k = g := by
  rcases Process_Ball_cases g k with ⟨-, down, -, e⟩ | ⟨p, hp, e⟩ | ⟨off, e⟩
  · -- The paddle sends it up.
    rw [e] at h
    obtain ⟨v, -, ⟨-, e⟩ | ⟨-, e⟩⟩ := hitPaddle_cases g k <;> rw [e] at h <;>
      exact absurd (neg_pos.1 h.1) (not_lt.2 down.le)
  · -- A block is above the middle of the screen.
    rw [e] at h
    have above := (inBlock_spec hp).2
    have low : PADDLE_START_Y ≤ g.ball_y + BALL_SIZE / 2 := h.2
    rw [PADDLE_START_Y, SCREEN_HEIGHT, BALL_SIZE] at low
    rw [SCREEN_HEIGHT] at above
    omega
  · rw [e] at h
    refine ⟨fun on => off ⟨?_, h.1, on⟩, e⟩
    have low := h.2
    rw [PADDLE_START_Y, BALL_SIZE, SCREEN_HEIGHT] at low
    rw [SCREEN_HEIGHT]
    omega

/-- The rows of the paddle are higher than the ball is fast: it cannot come below them in one call. -/
theorem low_or_beside (h : OnScreen g) (started : g.game_state ≠ .init) (k : Input) (low : Low (g.Game_Main k)) :
    Low g ∨ Beside (g.Game_Main k) := by
  unfold Game.Game_Main at low ⊢
  split at low
  · rename_i e
    exact absurd e started
  · exact .inl (low.of_eq rfl rfl)
  · -- What is after `Process_Ball` is the same with and without the escape key.
    have low' : Low ((g.movePaddle k).moveBall.limit.Process_Ball k) := by
      split at low
      · exact low.of_eq rfl rfl
      · exact low
    obtain ⟨off, same⟩ := Process_Ball_low low'
    suffices Low g ∨ Beside (g.movePaddle k).moveBall.limit by
      refine this.imp_right fun beside => ?_
      dsimp only
      rw [same]
      split
      · exact beside
      · exact beside
    rw [same] at low'
    have dy := h.ball_dy
    have bottom := h.ball_y.2
    have py := h.paddle_y
    obtain ⟨px, bx, bdx, -, ⟨below, e'⟩ | ⟨y, dy', moved, e'⟩⟩ := moves_cases g k
    · rw [e'] at low'
      have up : 0 < -g.ball_dy := low'.1
      omega
    · rw [e'] at low' off ⊢
      rw [onPaddle_iff] at off
      have down : 0 < dy' := low'.1
      have under : PADDLE_START_Y ≤ y + BALL_SIZE / 2 := low'.2
      simp only [Low, Beside, PADDLE_START_Y, SCREEN_HEIGHT, BALL_SIZE, PADDLE_HEIGHT, PADDLE_WIDTH] at *
      rcases moved with ⟨top, rfl, rfl⟩ | ⟨rfl, rfl⟩
      · rw [abs_of_neg (neg_pos.1 down)] at dy
        omega
      · rw [abs_of_pos down] at dy
        by_cases low : g.ball_y + g.ball_dy + 2 ≤ 456
        · refine .inr ⟨down, ⟨by omega, by omega⟩, fun on => off ⟨on, by omega, by omega⟩⟩
        · exact .inl ⟨down, by omega⟩
  · exact .inl (low.of_eq rfl rfl)
  · exact .inl low

/-- Only a ball that is about to leave the screen at the bottom is missed. -/
theorem low_of_missed (h : OnScreen g) (k : Input)
    (missed : g.log.count .missed < (g.Game_Main k).log.count .missed) : Low g := by
  unfold Game.Game_Main at missed
  split at missed
  · exact absurd missed (lt_irrefl _)
  · exact absurd missed (lt_irrefl _)
  · have same (m : Game) : (m.Process_Ball k).log.count .missed = m.log.count .missed := by
      rcases Process_Ball_cases m k with ⟨-, -, -, e⟩ | ⟨p, -, e⟩ | ⟨-, e⟩
      · rw [e]
        obtain ⟨v, -, ⟨-, e⟩ | ⟨-, e⟩⟩ := hitPaddle_cases m k <;> rw [e]
      · rw [e]
        simp [Game.hitBlock, List.count_append]
      · rw [e]
    have moves : g.log.count .missed < (g.movePaddle k).moveBall.limit.log.count .missed := by
      rw [← same (g.movePaddle k).moveBall.limit]
      split at missed
      · exact missed
      · exact missed
    obtain ⟨px, bx, bdx, -, ⟨below, -⟩ | ⟨y, dy', -, e⟩⟩ := moves_cases g k
    · have dy := h.ball_dy
      have bottom := h.ball_y.2
      simp only [Low, PADDLE_START_Y, SCREEN_HEIGHT, BALL_SIZE] at *
      have down : 0 < g.ball_dy := by omega
      rw [abs_of_pos down] at dy
      exact ⟨down, by omega⟩
    · rw [e] at moves
      exact absurd moves (lt_irrefl _)
  · exact absurd missed (lt_irrefl _)
  · exact absurd missed (lt_irrefl _)

/-- A low ball has come down beside the paddle, and goes down since then. -/
theorem beside_of_low (inputs : List Input) (low : Low (play inputs)) :
    ∃ as bs, inputs = as ++ bs ∧ Beside (play as) ∧ ∀ cs, cs <+: bs → 0 < (play (as ++ cs)).ball_dy := by
  induction inputs using List.reverseRecOn with
  | nil => exact absurd low.1 (lt_irrefl _)
  | append_singleton inputs k ih =>
    cases inputs with
    | nil =>
      have under : PADDLE_START_Y ≤ BALL_START_Y + BALL_SIZE / 2 := low.2
      exact absurd under (by decide)
    | cons k' inputs =>
      obtain ⟨on, hs⟩ := after_first k' inputs
      rw [play_append] at low
      rcases low_or_beside on hs k low with before | now
      · obtain ⟨as, bs, e, beside, down⟩ := ih before
        refine ⟨as, bs ++ [k], by rw [e, List.append_assoc], beside, fun cs hcs => ?_⟩
        rcases List.prefix_concat_iff.1 hcs with rfl | hcs
        · rw [← List.append_assoc, ← e, play_append]
          exact low.1
        · exact down cs hcs
      · have there : Beside (play (k' :: inputs ++ [k])) := (play_append (k' :: inputs) k).symm ▸ now
        refine ⟨k' :: inputs ++ [k], [], (List.append_nil _).symm, there, fun cs hcs => ?_⟩
        rw [List.prefix_nil.1 hcs, List.append_nil, play_append]
        exact low.1

/-- The player misses a ball only after it has come down in the paddle's rows beside the paddle; it has not bounced since then. -/
theorem missed_beside (inputs : List Input) (k : Input)
    (missed : (play inputs).log.count .missed < (play (inputs ++ [k])).log.count .missed) :
    ∃ as bs, inputs = as ++ bs ∧ Beside (play as) ∧ ∀ cs, cs <+: bs → 0 < (play (as ++ cs)).ball_dy := by
  refine beside_of_low inputs ?_
  rw [play_append] at missed
  cases inputs with
  | nil => exact absurd missed (lt_irrefl _)
  | cons k' inputs =>
    obtain ⟨on, -⟩ := after_first k' inputs
    exact low_of_missed on k missed

/-- The paddle stays where it is, and the ball comes down at the left side of the screen. -/
theorem missed_beside_left :
    ∃ as bs, List.replicate 41 ({ rand_dx := 4 } : Input) = as ++ bs ∧ Beside (play as) ∧
      ∀ cs, cs <+: bs → 0 < (play (as ++ cs)).ball_dy :=
  missed_beside (List.replicate 41 { rand_dx := 4 }) { rand_dx := 4 } (by decide +kernel)

end Game

end Zylib.Games.FreakOut
