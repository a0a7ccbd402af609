import RobotSoccer.Session.Tasks

/-!
# Counting changes nothing

A strategy that counts the questions to it gives the orders that it would give anyway. So whatever
happens in a session happens in the same way when the questions are counted.
-/

namespace RobotSoccer

variable {σ μ : Type}

namespace Stage

/-- Drawing what is seen has nothing to do with the count. -/
theorem uncounted_drawSeen (stage : Stage σ (Nat × μ)) :
    stage.drawSeen.uncounted = stage.uncounted.drawSeen := by
  have hrobot (other : Stage σ (Nat × μ)) (entry : RobotName × RobotView) :
      (other.drawRobot entry).uncounted = other.uncounted.drawRobot entry := by
    unfold drawRobot
    cases entry.2.pose with
    | none => rfl
    | some pose => rfl
  have hball : stage.drawBall.uncounted = stage.uncounted.drawBall := by
    unfold drawBall uncounted
    dsimp only
    cases stage.client.world.ball with
    | none => rfl
    | some position => rfl
  rw [drawSeen, drawSeen, ← hball]
  exact (List.foldl_hom uncounted fun other entry => (hrobot other entry).symm).symm

/-- Showing the line about the watched robot has nothing to do with the count. -/
theorem uncounted_showWatched (strategy : Strategy μ) (stage : Stage σ (Nat × μ)) :
    (stage.showWatched strategy.counted).map id uncounted = stage.uncounted.showWatched strategy := by
  unfold showWatched uncounted Strategy.counted
  dsimp only
  cases stage.client.world.robot? (strategy.watched stage.memory.2) with
  | none => rfl
  | some view => rfl

end Stage

namespace Mission

/-- The end of a loop has nothing to do with the count. -/
theorem uncounted_halt (mission : Mission σ (Nat × μ)) (halt : Halt) :
    (mission.halt halt).uncounted = mission.uncounted.halt halt := by
  cases halt <;> rfl

/-- An outcome has nothing to do with the count. -/
theorem uncounted_take (mission : Mission σ (Nat × μ)) (id : Nat) :
    (mission.take id).map (fun taken => (taken.1, taken.2.uncounted)) = mission.uncounted.take id := by
  have hlink : mission.uncounted.link = mission.link := rfl
  unfold take
  rw [hlink]
  cases mission.link.calls[id]? with
  | none => rfl
  | some call =>
    cases mission.link.take id with
    | none => rfl
    | some taken => rfl

/-- A strategy gives the same orders when the questions are counted. -/
theorem uncounted_begin (strategy : Strategy μ) (mission : Mission σ (Nat × μ)) (time : Duration) :
    (mission.begin strategy.counted time).uncounted = mission.uncounted.begin strategy time := by
  have hdrawn := mission.stage.uncounted_drawSeen
  unfold begin Stage.begin
  dsimp only [uncounted, Strategy.counted]
  rw [← hdrawn]
  rfl

/-- The beginning of an order has nothing to do with the count. -/
theorem uncounted_advance (mission : Mission σ (Nat × μ)) (order : GotoOrder) (more : List GotoOrder) :
    (mission.advance order more).uncounted = mission.uncounted.advance order more := by
  have hworld : mission.uncounted.stage.client.world = mission.stage.client.world := rfl
  unfold advance
  rw [hworld]
  cases mission.stage.client.world.stepTo order.robot order.target with
  | error halt => exact mission.uncounted_halt halt
  | ok step => rfl

/-- The outcome of a step of an order has nothing to do with the count. -/
theorem uncounted_stepped (mission : Mission σ (Nat × μ)) (arrived : Bool) (order : GotoOrder)
    (more : List GotoOrder) (outcome : Except CommandError Outcome) :
    (mission.stepped arrived order more outcome).uncounted =
      mission.uncounted.stepped arrived order more outcome := by
  cases outcome with
  | error cause => exact mission.uncounted_halt _
  | ok outcome =>
    unfold stepped
    dsimp only
    cases order.wait with
    | false => rfl
    | true => cases arrived <;> rfl

/-- The outcome of the stop behind an order has nothing to do with the count. -/
theorem uncounted_arrived (mission : Mission σ (Nat × μ)) (order : GotoOrder) (more : List GotoOrder)
    (outcome : Except CommandError Outcome) :
    (mission.arrived order more outcome).uncounted = mission.uncounted.arrived order more outcome := by
  cases outcome with
  | error cause => exact mission.uncounted_halt _
  | ok outcome => rfl

/-- What follows an outcome has nothing to do with the count. -/
theorem uncounted_after (mission : Mission σ (Nat × μ)) (id : Nat)
    (follow : Except CommandError Outcome → Mission σ (Nat × μ) → Mission σ (Nat × μ))
    (plain : Except CommandError Outcome → Mission σ μ → Mission σ μ)
    (hfollow : ∀ outcome told, (follow outcome told).uncounted = plain outcome told.uncounted) :
    ((mission.take id).map fun taken => follow taken.1 taken.2).map uncounted =
      (mission.uncounted.take id).map fun taken => plain taken.1 taken.2 := by
  rw [← uncounted_take, Option.map_map, Option.map_map]
  exact congrArg (fun change => (mission.take id).map change) (funext fun taken => hfollow taken.1 taken.2)

/-- The control task goes on in the same way when the questions are counted. -/
theorem uncounted_go (strategy : Strategy μ) (mission : Mission σ (Nat × μ)) (pace : Stage.Pace)
    (time : Duration) :
    (mission.go strategy.counted pace time).map uncounted = mission.uncounted.go strategy pace time := by
  obtain ⟨stage, place⟩ := mission
  cases place with
  | pausing =>
    cases pace with
    | polling => exact congrArg some (uncounted_begin strategy _ time)
    | onUpdate =>
      have hclient : stage.uncounted.client = stage.client := rfl
      dsimp only [go, uncounted]
      rw [hclient]
      cases stage.client.nextUpdate with
      | mk news client =>
        cases news with
        | fresh => exact congrArg some (uncounted_begin strategy _ time)
        | ended => exact congrArg some (uncounted_halt _ _)
        | pending => rfl
  | carrying orders =>
    cases orders with
    | nil =>
      have hshown := stage.uncounted_showWatched strategy
      dsimp only [go, uncounted]
      rw [← hshown]
      cases stage.showWatched strategy.counted with
      | mk result shown =>
        cases result with
        | error halt => exact congrArg some (uncounted_halt _ _)
        | ok => rfl
    | cons order more => exact congrArg some (uncounted_advance _ order more)
  | stepping id arrived order more =>
    exact uncounted_after _ id (fun outcome told => told.stepped arrived order more outcome)
      (fun outcome told => told.stepped arrived order more outcome)
      fun outcome told => told.uncounted_stepped arrived order more outcome
  | resting order more => rfl
  | arriving id order more =>
    exact uncounted_after _ id (fun outcome told => told.arrived order more outcome)
      (fun outcome told => told.arrived order more outcome)
      fun outcome told => told.uncounted_arrived order more outcome
  | closing robots result => cases robots <;> rfl
  | stopping id more result =>
    exact uncounted_after _ id (fun _ told => { told with place := .closing more result })
      (fun _ told => { told with place := .closing more result }) fun _ _ => rfl
  | ended result => rfl
  | crashed name => rfl

/-- The loop is stopped in the same way when the questions are counted. -/
theorem uncounted_stop (mission : Mission σ (Nat × μ)) :
    mission.stop.map uncounted = mission.uncounted.stop := by
  obtain ⟨stage, place⟩ := mission
  have hleave (id : Nat) :
      ((stage.client.far.leave id).map fun link =>
          ((⟨stage, place⟩ : Mission σ (Nat × μ)).setLink link).halt .stopped).map uncounted =
        (stage.client.far.leave id).map fun link =>
          ((⟨stage.uncounted, place⟩ : Mission σ μ).setLink link).halt .stopped := by
    rw [Option.map_map]
    rfl
  cases place with
  | stepping id arrived order more => exact hleave id
  | arriving id order more => exact hleave id
  | pausing => rfl
  | carrying orders => rfl
  | resting order more => rfl
  | closing robots result => rfl
  | stopping id robots result => rfl
  | ended result => rfl
  | crashed name => rfl

end Mission

namespace Tasks

/-- Whatever happens happens in the same way when the questions are counted. -/
theorem uncounted_happen (peer : Peer σ) (strategy : Strategy μ) (pace : Stage.Pace)
    (tasks : Tasks σ (Nat × μ)) (act : Act σ) :
    (tasks.happen peer strategy.counted pace act).map uncounted =
      tasks.uncounted.happen peer strategy pace act := by
  cases act with
  | intake act =>
    have hclient : tasks.uncounted.client = tasks.client := rfl
    dsimp only [happen]
    rw [hclient, Option.map_map]
    rfl
  | work work =>
    dsimp only [happen, Mission.happen]
    rw [Option.map_map, Option.map_map, Option.map_map]
    rfl
  | go time =>
    dsimp only [happen, Mission.happen]
    have hgo := tasks.mission.uncounted_go strategy pace time
    rw [Option.map_map]
    change _ = (tasks.mission.uncounted.go strategy pace time).map _
    rw [← hgo, Option.map_map]
    rfl
  | stop =>
    dsimp only [happen, Mission.happen]
    rw [Option.map_map]
    change _ = tasks.mission.uncounted.stop.map _
    rw [← tasks.mission.uncounted_stop, Option.map_map]
    rfl

/-- Whatever happens one thing after the other happens in the same way when the questions are counted. -/
theorem uncounted_run (peer : Peer σ) (strategy : Strategy μ) (pace : Stage.Pace)
    (tasks : Tasks σ (Nat × μ)) (acts : List (Act σ)) :
    (tasks.run peer strategy.counted pace acts).map uncounted =
      tasks.uncounted.run peer strategy pace acts := by
  induction acts generalizing tasks with
  | nil => rfl
  | cons act more ih =>
    rw [run, run, ← uncounted_happen]
    cases tasks.happen peer strategy.counted pace act with
    | none => rfl
    | some next => exact ih next

/-- In every session the questions to the strategy can be counted. -/
theorem exists_run_counted {peer : Peer σ} {strategy : Strategy μ} {pace : Stage.Pace}
    {stage : Stage (Link σ) μ} {intake : Intake} {acts : List (Act σ)} {later : Tasks σ μ}
    (hrun : (start stage intake).run peer strategy pace acts = some later) :
    ∃ counting, (start stage.counted intake).run peer strategy.counted pace acts = some counting ∧
      counting.uncounted = later :=
  Option.map_eq_some_iff.1 ((uncounted_run peer strategy pace (start stage.counted intake) acts).trans hrun)

end Tasks

end RobotSoccer
