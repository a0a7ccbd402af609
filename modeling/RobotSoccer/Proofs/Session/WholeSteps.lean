import RobotSoccer.Proofs.Session.Missions
import RobotSoccer.Session.Scene

/-!
# Whole steps

A step that is taken as a whole is one that begins, looks at all robots, asks for orders and carries
them out while nothing else happens, until it fails or comes to its end. What it sees and brings about
can be told from where it begins.
-/

namespace RobotSoccer

variable {σ μ : Type}

/-- What is seen of a robot to which nothing happens meanwhile. -/
def RobotView.sight? (view : RobotView) : Option Sight :=
  view.pose.map fun pose => ⟨pose, view.status.preempted⟩

/-- The orders that are carried out: those before the first that fails. -/
def Stage.carriedOut (server : Server σ) : List GotoOrder → Stage σ μ → List GotoOrder
  | [], _ => []
  | order :: more, stage =>
    match stage.fulfil server order with
    | (.error _, _) => []
    | (.ok (), later) => order :: carriedOut server more later

namespace Scene

/-- The cues for looking at a robot. -/
def lookCues (entry : RobotName × RobotView) : List (Cue μ) :=
  .look entry.1 :: if entry.2.pose.isSome then [.flag] else []

/-- The cues for carrying out orders until one fails, and for the end of the step when none does. -/
def orderCues (server : Server σ) (strategy : Strategy μ) : List GotoOrder → Stage σ μ → List (Cue μ)
  | [], _ => [.finish strategy]
  | order :: more, stage =>
    .order stage.arrivals ::
      match stage.fulfil server order with
      | (.error _, _) => []
      | (.ok (), later) => orderCues server strategy more later

/-- The cues of a step in which nothing else happens. -/
def stepCues (server : Server σ) (strategy : Strategy μ) (time : Duration) (stage : Stage σ μ) :
    List (Cue μ) :=
  .begin :: (stage.client.world.robots.toList.flatMap lookCues ++
    .plan strategy time ::
      orderCues server strategy (stage.begin strategy time).1 (stage.begin strategy time).2)

/-- What a step sees and brings about when nothing else happens. -/
def stepMarks (server : Server σ) (strategy : Strategy μ) (time : Duration) (stage : Stage σ μ) :
    List Mark :=
  .began stage.client.world.ball ::
    ((stage.client.world.robots.toList.map fun entry => .looked entry.1 entry.2.sight?) ++
      ((stage.begin strategy time).2.carriedOut server (stage.begin strategy time).1).map .reached)

variable (server : Server σ) (others : List (Option GuardId))

/-- Cues may be cut in two anywhere. -/
theorem after_append (scene : Scene σ μ) (before behind : List (Cue μ)) :
    scene.after server (before ++ behind) = (scene.after server before).after server behind :=
  List.foldl_append

/-- What is seen and brought about may be cut in two where the cues are. -/
theorem marks_append (scene : Scene σ μ) (before behind : List (Cue μ)) :
    scene.marks server (before ++ behind) =
      scene.marks server before ++ (scene.after server before).marks server behind := by
  induction before generalizing scene with
  | nil => rfl
  | cons cue more ih =>
    rw [List.cons_append, marks, marks, ih, List.append_assoc]
    rfl

/-- Looking at a robot draws it as it is seen. -/
theorem after_lookCues (seen : Snapshot) (stage : Stage σ μ) {entry : RobotName × RobotView}
    (hknown : stage.client.world.robot? entry.1 = some entry.2) (left : List RobotName) :
    after server ⟨stage, others, .looking seen (entry.1 :: left)⟩ (lookCues entry) =
        ⟨stage.drawRobot entry, others, .looking seen left⟩ ∧
      marks server ⟨stage, others, .looking seen (entry.1 :: left)⟩ (lookCues entry) =
        [.looked entry.1 entry.2.sight?] := by
  obtain ⟨name, view⟩ := entry
  dsimp only at hknown
  unfold lookCues Stage.drawRobot RobotView.sight?
  dsimp only
  cases hpose : view.pose with
  | none =>
    have hlook : happen server ⟨stage, others, .looking seen (name :: left)⟩ (.look name) =
        ⟨stage, others, .looking seen left⟩ := by
      dsimp only [happen]
      rw [hknown]
      dsimp only
      rw [if_pos List.mem_cons_self, hpose, List.erase_cons_head]
    have hmark : mark? server ⟨stage, others, .looking seen (name :: left)⟩ (.look name) =
        some (.looked name none) := by
      dsimp only [mark?]
      rw [hknown]
      exact if_pos ⟨List.mem_cons_self, by rw [hpose]; rfl⟩
    refine ⟨hlook, ?_⟩
    rw [marks, hmark]
    rfl
  | some pose =>
    have hlook : happen server ⟨stage, others, .looking seen (name :: left)⟩ (.look name) =
        ⟨stage, others, .flagging seen name pose left⟩ := by
      dsimp only [happen]
      rw [hknown]
      dsimp only
      rw [if_pos List.mem_cons_self, hpose, List.erase_cons_head]
    have hnothing : mark? server ⟨stage, others, .looking seen (name :: left)⟩ (.look name) = none := by
      dsimp only [mark?]
      rw [hknown]
      refine if_neg fun hunseen => ?_
      rw [hpose] at hunseen
      exact Bool.false_ne_true hunseen.2
    have hflag : happen server ⟨stage, others, .flagging seen name pose left⟩ .flag =
        ⟨stage.drawRobotAt name pose view.status.preempted, others, .looking seen left⟩ := by
      dsimp only [happen]
      rw [hknown]
    have hmark : mark? server ⟨stage, others, .flagging seen name pose left⟩ .flag =
        some (.looked name (some ⟨pose, view.status.preempted⟩)) := by
      dsimp only [mark?]
      rw [hknown]
      rfl
    rw [Option.isSome_some, if_pos rfl]
    constructor
    · rw [after, List.foldl_cons, hlook, List.foldl_cons, hflag]
      rfl
    · rw [marks, hnothing, hlook, marks, hmark]
      rfl

/-- Looking at robots one after the other draws them one after the other. -/
theorem after_looks (seen : Snapshot) (stage : Stage σ μ) (entries : List (RobotName × RobotView))
    (hknown : ∀ entry ∈ entries, stage.client.world.robot? entry.1 = some entry.2) :
    after server ⟨stage, others, .looking seen (entries.map Prod.fst)⟩ (entries.flatMap lookCues) =
        ⟨entries.foldl Stage.drawRobot stage, others, .looking seen []⟩ ∧
      marks server ⟨stage, others, .looking seen (entries.map Prod.fst)⟩ (entries.flatMap lookCues) =
        entries.map fun entry => .looked entry.1 entry.2.sight? := by
  induction entries generalizing stage with
  | nil => exact ⟨rfl, rfl⟩
  | cons entry more ih =>
    obtain ⟨hentry, hmore⟩ := List.forall_mem_cons.1 hknown
    obtain ⟨hlook, hmark⟩ :=
      after_lookCues server others seen stage hentry (more.map Prod.fst)
    obtain ⟨hrest, hmarks⟩ := ih (stage.drawRobot entry) (by rwa [stage.client_drawRobot entry])
    rw [List.map_cons, List.flatMap_cons, after_append, marks_append, hlook, hmark, hrest, hmarks]
    exact ⟨rfl, rfl⟩

/-- Carrying out orders one after the other is carrying them out until one fails. -/
theorem after_orderCues (strategy : Strategy μ) (orders : List GotoOrder) (stage : Stage σ μ) :
    after server ⟨stage, others, .carrying orders⟩ (orderCues server strategy orders stage) =
        ⟨(Stage.conclude strategy (stage.carryOut server orders)).2, others, .between⟩ ∧
      marks server ⟨stage, others, .carrying orders⟩ (orderCues server strategy orders stage) =
        (stage.carriedOut server orders).map .reached := by
  induction orders generalizing stage with
  | nil => exact ⟨rfl, rfl⟩
  | cons order more ih =>
    have hfulfil : fulfil server ⟨stage, others, .carrying (order :: more)⟩ order stage.arrivals =
        stage.fulfil server order := rfl
    rw [orderCues, Stage.carryOut, Stage.carriedOut, marks]
    dsimp only [after, List.foldl_cons, happen, mark?]
    rw [hfulfil]
    cases hfulfilled : stage.fulfil server order with
    | mk result later =>
      cases result with
      | error halt => exact ⟨rfl, rfl⟩
      | ok =>
        obtain ⟨hrest, hmarks⟩ := ih later
        exact ⟨hrest, congrArg (List.cons (Mark.reached order)) hmarks⟩

/-- A step as a whole is a step in which nothing else happens. -/
theorem after_stepCues (strategy : Strategy μ) (time : Duration) (stage : Stage σ μ) :
    after server ⟨stage, others, .between⟩ (stepCues server strategy time stage) =
        ⟨(stage.step server strategy time).2, others, .between⟩ ∧
      marks server ⟨stage, others, .between⟩ (stepCues server strategy time stage) =
        stepMarks server strategy time stage := by
  have hknown : ∀ entry ∈ stage.client.world.robots.toList,
      stage.drawBall.client.world.robot? entry.1 = some entry.2 := by
    intro entry hentry
    rw [stage.client_drawBall]
    exact Roster.mem_toList.1 hentry
  obtain ⟨hlooked, hlookmarks⟩ : after server ⟨stage.drawBall, others, .looking _ RobotName.all⟩ _ = _ ∧
      marks server ⟨stage.drawBall, others, .looking _ RobotName.all⟩ _ = _ :=
    after_looks server others stage.client.world.snapshot stage.drawBall
      stage.client.world.robots.toList hknown
  obtain ⟨hcarried, hordermarks⟩ := after_orderCues server others strategy
    (stage.begin strategy time).1 (stage.begin strategy time).2
  constructor
  · rw [stepCues, after, List.foldl_cons]
    refine (after_append server _ _ _).trans ?_
    refine (congrArg (fun scene => after server scene _) hlooked).trans ?_
    exact hcarried
  · rw [stepCues, stepMarks, marks]
    refine congrArg (List.cons (Mark.began stage.client.world.ball)) ((marks_append server _ _ _).trans ?_)
    refine (congrArg₂ (· ++ ·) hlookmarks
      (congrArg (fun scene => marks server scene _) hlooked)).trans ?_
    exact congrArg (_ ++ ·) hordermarks

/-- Nobody else does anything in the cues for carrying out orders. -/
theorem deeds_orderCues (strategy : Strategy μ) (orders : List GotoOrder) (stage : Stage σ μ) :
    (orderCues server strategy orders stage).filterMap Cue.deed? = [] := by
  induction orders generalizing stage with
  | nil => rfl
  | cons order more ih =>
    rw [orderCues]
    rcases stage.fulfil server order with ⟨halt | _, later⟩
    · rfl
    · exact ih later

/-- Nobody else does anything in the cues of a step. -/
theorem deeds_stepCues (strategy : Strategy μ) (time : Duration) (stage : Stage σ μ) :
    (stepCues server strategy time stage).filterMap Cue.deed? = [] := by
  have hlooks : (stage.client.world.robots.toList.flatMap lookCues : List (Cue μ)).filterMap
      Cue.deed? = [] := by
    refine List.filterMap_eq_nil_iff.2 fun cue hcue => ?_
    obtain ⟨entry, -, hentry⟩ := List.mem_flatMap.1 hcue
    unfold lookCues at hentry
    cases hseen : entry.2.pose.isSome with
    | true =>
      rw [hseen, if_pos rfl, List.mem_cons, List.mem_singleton] at hentry
      obtain rfl | rfl := hentry <;> rfl
    | false =>
      rw [hseen, if_neg Bool.false_ne_true, List.mem_singleton] at hentry
      rw [hentry]
      rfl
  rw [stepCues, List.filterMap_cons_none rfl, List.filterMap_append, hlooks,
    List.filterMap_cons_none rfl, deeds_orderCues]
  rfl

end Scene

end RobotSoccer
