import NatsServer.Lib.Bits
import NatsServer.Lib.Bytes
import NatsServer.Lib.BTree
import NatsServer.Lib.Run
import NatsServer.Lib.Calls
import NatsServer.Lib.Assoc
import NatsServer.Lib.Trie
import NatsServer.Lib.Fiber
import NatsServer.Lib.Strconv
import NatsServer.Lib.Varint
import NatsServer.Lib.Time
import NatsServer.Lib.Utf8
import NatsServer.Lib.Stdlib
import NatsServer.Avl.SeqSet
import NatsServer.Avl.Blocks
import NatsServer.Avl.Contents
import NatsServer.Avl.Refine
import NatsServer.Avl.Balance
import NatsServer.Avl.Codec
import NatsServer.Avl.Range
import NatsServer.Avl.Decode
import NatsServer.Avl.Union
import NatsServer.Subject.Tokens
import NatsServer.Subject.Level
import NatsServer.Subject.Collide
import NatsServer.Gsl.Sublist
import NatsServer.Gsl.Refine
import NatsServer.Server.Sublist
import NatsServer.Server.Calls
import NatsServer.Server.Notify
import NatsServer.Server.Nodes
import NatsServer.Server.Literal
import NatsServer.Server.Query
import NatsServer.Stree.Node
import NatsServer.Stree.Tree
import NatsServer.Stree.Refine
import NatsServer.Thw.Wheel
import NatsServer.Thw.Invariant
import NatsServer.Thw.Expire
import NatsServer.Thw.Codec
import NatsServer.Transform.Subject
import NatsServer.Parser.Parse
import NatsServer.Store.Consumer
import NatsServer.Store.ConsumerRoundTrip
import NatsServer.Store.MemStore
import NatsServer.Store.Query
import NatsServer.Store.EncodedState
import NatsServer.Cluster.StreamMsg
import NatsServer.Cluster.StreamMsgRoundTrip
import NatsServer.Cluster.RaftCodec
import NatsServer.Cluster.RaftCodecRoundTrip
import NatsServer.Cluster.Raft
import NatsServer.Stream.Headers
import NatsServer.Conf.Lex
import NatsServer.Conf.Parse
import NatsServer.Conf.LexSafety
import NatsServer.Conf.LexSteps
import NatsServer.Conf.LexRun
import NatsServer.Lib.Within
import NatsServer.Conf.ParseSafety
import NatsServer.Conf.Integers
import NatsServer.Lib.Agree
import NatsServer.Conf.Pedantic
