import ChatApplication.Lib.Runs
import ChatApplication.Lib.StableSort
import ChatApplication.Lib.PathTree
import ChatApplication.SignIn
import ChatApplication.NodeName
import ChatApplication.Conversation
import ChatApplication.Controllers.ChatTableView
import ChatApplication.Transcript
import ChatApplication.OpenChats
import ChatApplication.UserList
import ChatApplication.SceneDelegate
import ChatApplication.Presence
import ChatApplication.AudioUpload
import ChatApplication.VoiceMessage
import ChatApplication.TableIndices
import ChatApplication.PlayButtons
import ChatApplication.UserPicture
import ChatApplication.Microphone
import ChatApplication.DayGroups
import ChatApplication.SendText
import ChatApplication.DayHeader
import ChatApplication.Lib.Gregorian
import ChatApplication.DayArithmetic
import ChatApplication.Lib.DatePattern
import ChatApplication.DatedHeader
import ChatApplication.SnapshotShape
import ChatApplication.Firebase.ConnectionSafety
import ChatApplication.Lib.Overwrite
import ChatApplication.Firebase.WriteDelivery
import ChatApplication.Lib.Numeral
import ChatApplication.PushIds
import ChatApplication.Lib.Patch
import ChatApplication.RecordView
import ChatApplication.Firebase.CompoundWrite
import ChatApplication.Firebase.WriteTree
import ChatApplication.Firebase.ChildrenNode
import ChatApplication.MessageOrder
