import RobotSoccer.Proofs.Controller.Isolation
import RobotSoccer.Proofs.Controller.Mirror
import RobotSoccer.Proofs.Controller.Naming
import RobotSoccer.Proofs.Controller.Replies
import RobotSoccer.Proofs.Controller.Requests
import RobotSoccer.Proofs.Controller.Stream
import RobotSoccer.Proofs.Controller.Velocities
import RobotSoccer.Proofs.Controller.Visits
import RobotSoccer.Proofs.Geometry.Contraction
import RobotSoccer.Proofs.Geometry.Frames
import RobotSoccer.Proofs.Link.Addresses
import RobotSoccer.Proofs.Link.ReplyGrammar
import RobotSoccer.Proofs.Packet.Spellings
import RobotSoccer.Proofs.Packet.Truncated
import RobotSoccer.Proofs.Session.Drawn
import RobotSoccer.Proofs.Session.Orders
import RobotSoccer.Proofs.Session.Overtaking
import RobotSoccer.Proofs.Session.Readiness
import RobotSoccer.Proofs.Session.Serving
import RobotSoccer.Proofs.World.Finite
import RobotSoccer.Proofs.World.Recall
import RobotSoccer.Session.Pilot
