import Codez.Compress.Eviction
import Codez.Compress.JsonForms
import Codez.Compress.PrefixStability
import Codez.Compress.Reformatting
import Codez.Compress.SearchSelection
import Codez.Compress.TableRows
import Codez.Compress.Truncation
import Codez.History.Trimming
import Codez.NetworkProxy.Blocked
import Codez.NetworkProxy.Profile
import Codez.NetworkProxy.Spelling
import Codez.NetworkRules
import Codez.Patch.Collisions
import Codez.Patch.Marked
import Codez.Patch.RawText
import Codez.Patch.Sequential
import Codez.Relay.Authorization
import Codez.Relay.HandshakeBudget
import Codez.RemoteControl.Closing
import Codez.RemoteControl.Numbering
import Codez.RemoteControl.SegmentSearch
import Codez.Sandbox.TwoViews
import Codez.StreamParser.AssistantText
import Codez.StreamParser.Utf8Stream
import Codez.Switch.AnthropicPairing
import Codez.Switch.CallsByIndex
import Codez.Switch.ChatPairing
import Codez.Switch.Completion
import Codez.Switch.Connectors
import Codez.Switch.Delivery
import Codez.Switch.Replay
import Codez.Switch.Turn
import Codez.Switch.Usage
import Codez.Thread.ItemNumbers
import Codez.Thread.Steering
import Codez.TurnDiff
