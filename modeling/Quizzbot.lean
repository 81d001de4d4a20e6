import Quizzbot.Server.Correctness.Chat
import Quizzbot.Server.Correctness.Game
import Quizzbot.Server.Correctness.Relay
import Quizzbot.Server.Correctness.Lifecycle
import Quizzbot.Server.Correctness.Admission
import Quizzbot.Delivery
import Quizzbot.Server.Wire
import Quizzbot.Common.Correctness.Polling
import Quizzbot.Server.Correctness.Quizz
import Quizzbot.Client.Correctness.Sending
import Quizzbot.Client.Correctness.Receiving
import Quizzbot.Common.Correctness.RoundTrip
import Quizzbot.Common.Correctness.Scan
import Quizzbot.Common.Correctness.Robust
import Quizzbot.Common.Correctness.Schema
import Quizzbot.Common.Correctness.Bounds
import Quizzbot.Client.Correctness.LineParsing
import Quizzbot.Client.Correctness.Process
import Quizzbot.Lib.Framing
import Quizzbot.Server.Correctness.Loop
import Quizzbot.System
import Quizzbot.Correctness.NoFault
import Quizzbot.Correctness.Refinement
import Quizzbot.Correctness.Shutdown
import Quizzbot.Correctness.Settling
